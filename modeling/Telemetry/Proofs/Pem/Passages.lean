import Mathlib
import Telemetry.Proofs.Pem.Sections

/-! Armoured text of any shape. The lines of a text divide into those outside of sections, whole
sections, and what is broken or left unfinished (`Pem.exists_divides`); what is read from the text
is what stands in these passages (`Pem.read_of_divides`). -/

namespace Telemetry.Pem

/-- A part of a text that counts by itself: a section with its end, a line that looks like the
beginning of a section and is none, or a section without an end. -/
inductive Passage
  | whole (label content : Bytes)
  | broken (line : Bytes)
  | unfinished (label : Bytes)
  deriving DecidableEq, Repr

/-- The line begins a section of that label. -/
def Begins (line label : Bytes) : Prop := startMark <+: line ∧ startLabel? line = some label

/-- The line starts like one that begins a section, but names no label. -/
def IsBroken (line : Bytes) : Prop := startMark <+: line ∧ startLabel? line = none

/-- Lines inside of a section of the first label, their content, and the label of the section behind
them: a section that begins inside of another one takes its place and keeps its content. -/
inductive Inside : (label : Bytes) → List Bytes → (last content : Bytes) → Prop
  | nil (label) : Inside label [] label []
  | content {label line lines last content} (hstart : ¬startMark <+: line)
      (hend : ¬endMark label <+: line) (h : Inside label lines last content) :
      Inside label (line :: lines) last (line ++ content)
  | restart {label line label' lines last content} (hline : Begins line label')
      (h : Inside label' lines last content) : Inside label (line :: lines) last content

/-- The line at which a section with that content stops, and what it has been then. -/
inductive Stops (label content : Bytes) : (line : Bytes) → Passage → Prop
  | whole {line} (h : endMark label <+: line) : Stops label content line (.whole label content)
  | broken {line} (h : IsBroken line) : Stops label content line (.broken line)

/-- What the lines of a text consist of. -/
inductive Divides : List Bytes → List Passage → Prop
  | nil : Divides [] []
  | outside {line lines ps} (hline : ¬startMark <+: line) (h : Divides lines ps) :
      Divides (line :: lines) ps
  | broken {line lines ps} (hline : IsBroken line) (h : Divides lines ps) :
      Divides (line :: lines) (.broken line :: ps)
  | stopped {line label inner last content stop p lines ps} (hline : Begins line label)
      (hinner : Inside label inner last content) (hstop : Stops last content stop p)
      (h : Divides lines ps) : Divides (line :: (inner ++ stop :: lines)) (p :: ps)
  | unfinished {line label inner last content} (hline : Begins line label)
      (hinner : Inside label inner last content) :
      Divides (line :: inner) [.unfinished last]

/-! ## Every text divides -/

/-- Behind the lines inside of a section there is nothing, or a line at which it stops. -/
theorem exists_inside (label : Bytes) (lines : List Bytes) :
    ∃ inner last content rest, lines = inner ++ rest ∧ Inside label inner last content ∧
      ∀ stop ∈ rest.head?, endMark last <+: stop ∨ IsBroken stop := by
  induction lines generalizing label with
  | nil => exact ⟨[], label, [], [], rfl, .nil label, by simp⟩
  | cons line lines ih =>
    by_cases hstart : startMark <+: line
    · cases hlabel : startLabel? line with
      | none =>
        refine ⟨[], label, [], line :: lines, rfl, .nil label, ?_⟩
        rintro _ ⟨rfl⟩
        exact .inr ⟨hstart, hlabel⟩
      | some label' =>
        obtain ⟨inner, last, content, rest, rfl, hinner, hrest⟩ := ih label'
        exact ⟨line :: inner, last, content, rest, rfl, .restart ⟨hstart, hlabel⟩ hinner, hrest⟩
    · by_cases hend : endMark label <+: line
      · refine ⟨[], label, [], line :: lines, rfl, .nil label, ?_⟩
        rintro _ ⟨rfl⟩
        exact .inl hend
      · obtain ⟨inner, last, content, rest, rfl, hinner, hrest⟩ := ih label
        exact ⟨line :: inner, last, _, rest, rfl, .content hstart hend hinner, hrest⟩

theorem exists_divides (lines : List Bytes) : ∃ ps, Divides lines ps := by
  -- by the number of lines, as a section takes several of them at once
  induction hn : lines.length using Nat.strong_induction_on generalizing lines with
  | _ n ih =>
    subst hn
    cases lines with
    | nil => exact ⟨[], .nil⟩
    | cons line lines =>
      by_cases hstart : startMark <+: line
      · cases hlabel : startLabel? line with
        | none =>
          obtain ⟨ps, hps⟩ := ih _ (Nat.lt_succ_self _) lines rfl
          exact ⟨_, .broken ⟨hstart, hlabel⟩ hps⟩
        | some label =>
          obtain ⟨inner, last, content, rest, rfl, hinner, hrest⟩ := exists_inside label lines
          cases rest with
          | nil =>
            rw [List.append_nil]
            exact ⟨_, .unfinished ⟨hstart, hlabel⟩ hinner⟩
          | cons stop rest =>
            obtain ⟨ps, hps⟩ := ih rest.length (by simp; omega) rest rfl
            rcases hrest stop rfl with hend | hbroken
            · exact ⟨_, .stopped ⟨hstart, hlabel⟩ hinner (.whole hend) hps⟩
            · exact ⟨_, .stopped ⟨hstart, hlabel⟩ hinner (.broken hbroken) hps⟩
      · obtain ⟨ps, hps⟩ := ih _ (Nat.lt_succ_self _) lines rfl
        exact ⟨ps, .outside hstart hps⟩

/-! ## What is read from the passages -/

namespace Passage

/-- What is read from a passage: nothing only if it is a section of an unknown label. -/
def result? : Passage → Option (Except Fault Block)
  | .whole label content => (Kind.ofLabel? label).map fun kind =>
    ((Base64.decode content).map (Block.mk kind)).mapError .base64
  | .broken line => some (.error (.illegalStart line))
  | .unfinished label => some (.error (.missingEnd label))

/-- The passage can be read: it is a section with an end, and what stands in it can be decoded,
unless its label is unknown. -/
def IsSound : Passage → Prop
  | .whole label content =>
    ∀ kind, Kind.ofLabel? label = some kind → ∃ bytes, Base64.decode content = .ok bytes
  | .broken _ => False
  | .unfinished _ => False

/-- A passage cannot be read, or it is a section of an unknown label, or one of a known label with
something in it that can be decoded. -/
theorem sound_cases (p : Passage) :
    (¬p.IsSound ∧ ∃ fault, p.result? = some (.error fault)) ∨
      (∃ label content, p = .whole label content ∧ Kind.ofLabel? label = none) ∨
      ∃ (kind : Kind) (content bytes : Bytes), p = .whole (Text.utf8 kind.label) content ∧
        Base64.decode content = .ok bytes := by
  cases p with
  | broken line => exact .inl ⟨id, _, rfl⟩
  | unfinished label => exact .inl ⟨id, _, rfl⟩
  | whole label content =>
    cases hk : Kind.ofLabel? label with
    | none => exact .inr (.inl ⟨label, content, rfl, hk⟩)
    | some kind =>
      cases hd : Base64.decode content with
      | ok bytes =>
        rw [Kind.ofLabel?_eq_some_iff] at hk
        exact .inr (.inr ⟨kind, content, bytes, by rw [hk], hd⟩)
      | error fault =>
        refine .inl ⟨fun h => ?_, .base64 fault, ?_⟩
        · obtain ⟨bytes, hb⟩ := h kind hk
          rw [hd] at hb
          cases hb
        · rw [result?, hk, hd]
          rfl

section Whole

variable {label content bytes : Bytes} {kind : Kind}

theorem isSound_of_unknown (h : Kind.ofLabel? label = none) : (whole label content).IsSound := by
  intro kind hk
  rw [h] at hk
  cases hk

theorem isSound_of_decode (h : Base64.decode content = .ok bytes) :
    (whole label content).IsSound := fun _ _ => ⟨bytes, h⟩

theorem result?_of_unknown (h : Kind.ofLabel? label = none) :
    (whole label content).result? = none := by
  rw [result?, h]
  rfl

theorem result?_of_decode (h : Base64.decode content = .ok bytes) :
    (whole (Text.utf8 kind.label) content).result? = some (.ok ⟨kind, bytes⟩) := by
  rw [result?, Kind.ofLabel?_label, h]
  rfl

theorem label_ne_of_unknown (h : Kind.ofLabel? label = none) (kind : Kind) :
    label ≠ Text.utf8 kind.label := by
  rintro rfl
  rw [Kind.ofLabel?_label] at h
  cases h

end Whole

end Passage

namespace Reader

/-- Lines inside of a section are collected. -/
theorem run_inside {label last content : Bytes} {lines : List Bytes}
    (h : Inside label lines last content) (body : Bytes) (rest : List Bytes) :
    (Reader.mk (some label) body).run (lines ++ rest) =
      (Reader.mk (some last) (body ++ content)).run rest := by
  induction h generalizing body with
  | nil => simp
  | content hstart hend _ ih =>
    rw [List.cons_append, run_cons, step_inside body hstart hend]
    exact (ih _).trans (by rw [List.append_assoc])
  | restart hline _ ih =>
    rw [List.cons_append, run_cons, step_begin _ hline.1 hline.2]
    exact ih body

theorem run_stops {label content line : Bytes} {p : Passage} (h : Stops label content line p)
    (lines : List Bytes) : (Reader.mk (some label) content).run (line :: lines) =
      p.result?.toList ++ ({} : Reader).run lines := by
  rw [run_cons]
  cases h with
  | broken h =>
    rw [step_broken _ h.1 h.2]
    rfl
  | whole h =>
    rw [step_end content h, close, Passage.result?]
    cases Kind.ofLabel? label with
    | none => rfl
    | some kind => cases Base64.decode content <;> rfl

theorem run_divides {lines : List Bytes} {ps : List Passage} (h : Divides lines ps) :
    ({} : Reader).run lines = ps.filterMap Passage.result? := by
  induction h with
  | nil => rfl
  | outside hline _ ih =>
    rw [run_cons, step_outside hline]
    exact ih
  | broken hline _ ih =>
    rw [run_cons, step_broken _ hline.1 hline.2]
    exact congrArg (_ :: ·) ih
  | stopped hline hinner hstop _ ih =>
    rw [run_cons, step_begin _ hline.1 hline.2, List.filterMap_cons]
    refine (run_inside hinner [] _).trans ((run_stops hstop _).trans ?_)
    rw [ih]
    cases Passage.result? _ <;> rfl
  | unfinished hline hinner =>
    rw [run_cons, step_begin _ hline.1 hline.2]
    have hrun := run_inside hinner [] []
    rw [List.append_nil] at hrun
    exact hrun

end Reader

/-- What is read from a text is what stands in its passages. -/
theorem read_of_divides {text : Bytes} {ps : List Passage} (h : Divides (linesOf text) ps) :
    read text = ps.filterMap Passage.result? := Reader.run_divides h

end Telemetry.Pem
