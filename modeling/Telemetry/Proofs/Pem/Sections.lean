import Mathlib
import Telemetry.Pem

/-! Armoured text made of whole sections. A text that is any sequence of complete sections and of
lines outside of them is read section by section: each one gives what it holds, whatever the others
are (`Pem.read_of_isText`). -/

namespace Telemetry.Pem

/-! ## Lines -/

inductive LineEnd
  | lineFeed
  | carriageReturn
  | both
  deriving DecidableEq, Repr

def LineEnd.bytes : LineEnd → Bytes
  | .lineFeed => [10]
  | .carriageReturn => [13]
  | .both => [13, 10]

def endStart : Bytes := Text.utf8 "-----END "

/-- A single line that neither begins nor ends a section. -/
def isPlain (line : Bytes) : Bool :=
  line.all (!isLineEnd ·) && !startMark.isPrefixOf line && !endStart.isPrefixOf line

theorem isPlain_iff {line : Bytes} : isPlain line = true ↔
    (∀ b ∈ line, isLineEnd b = false) ∧ ¬startMark <+: line ∧ ¬endStart <+: line := by
  simp only [isPlain, Bool.and_eq_true, List.all_eq_true, Bool.not_eq_true', and_assoc,
    ← List.isPrefixOf_iff_prefix, Bool.not_eq_true]

structure PlainLine where
  text : Bytes
  ending : LineEnd := .lineFeed
  plain : isPlain text = true := by decide +kernel

def PlainLine.bytes (l : PlainLine) : Bytes := l.text ++ l.ending.bytes

namespace Reader

@[simp] theorem step_nil (r : Reader) : r.step [] = .next r := by
  obtain ⟨label, body⟩ := r
  cases label with
  | none => rfl
  | some label =>
    have hend : (endMark label).isPrefixOf [] = false := rfl
    rw [step, if_neg (by decide)]
    simp [hend]

theorem step_begin (r : Reader) {line label : Bytes} (hs : startMark <+: line)
    (hl : startLabel? line = some label) : r.step line = .next { r with label := some label } := by
  rw [step, if_pos (List.isPrefixOf_iff_prefix.mpr hs), hl]

theorem step_broken (r : Reader) {line : Bytes} (hs : startMark <+: line)
    (hl : startLabel? line = none) : r.step line = .read (.error (.illegalStart line)) := by
  rw [step, if_pos (List.isPrefixOf_iff_prefix.mpr hs), hl]

theorem step_outside {line : Bytes} (hs : ¬startMark <+: line) :
    ({} : Reader).step line = .next {} := by
  rw [step, if_neg (mt List.isPrefixOf_iff_prefix.mp hs)]

theorem step_inside {label line : Bytes} (body : Bytes) (hs : ¬startMark <+: line)
    (he : ¬endMark label <+: line) :
    (Reader.mk (some label) body).step line = .next ⟨some label, body ++ line⟩ := by
  rw [step, if_neg (mt List.isPrefixOf_iff_prefix.mp hs)]
  exact if_neg (mt List.isPrefixOf_iff_prefix.mp he)

theorem step_end {label line : Bytes} (body : Bytes) (he : endMark label <+: line) :
    (Reader.mk (some label) body).step line = close label body := by
  have hs : startMark.isPrefixOf line = false := by
    obtain ⟨rest, rfl⟩ := he
    rfl
  rw [step, hs, if_neg Bool.false_ne_true]
  exact if_pos (List.isPrefixOf_iff_prefix.mpr he)

@[simp] theorem run_cons_nil (r : Reader) (lines : List Bytes) :
    r.run ([] :: lines) = r.run lines := by
  rw [run, step_nil]

/-- What a line leads to, with what is read from the lines behind it. -/
def Outcome.andThen (o : Outcome) (lines : List Bytes) : List (Except Fault Block) :=
  match o with
  | .next r => r.run lines
  | .read result => result :: Reader.run {} lines

theorem run_cons (r : Reader) (line : Bytes) (lines : List Bytes) :
    r.run (line :: lines) = (r.step line).andThen lines := by
  rw [run]
  cases r.step line <;> rfl

/-- A line without anything at the end changes nothing. -/
theorem run_concat_nil (r : Reader) (lines : List Bytes) : r.run (lines ++ [[]]) = r.run lines := by
  induction lines generalizing r with
  | nil => exact run_cons_nil r []
  | cons line lines ih =>
    rw [List.cons_append, run_cons, run_cons]
    cases r.step line with
    | next r => exact ih r
    | read result => exact congrArg (result :: ·) (ih {})

/-- All that is read from a text on. -/
def runText (r : Reader) (bs : Bytes) : List (Except Fault Block) := r.run (bs.splitOnP isLineEnd)

theorem run_linesOf (r : Reader) (bs : Bytes) : r.run (linesOf bs) = r.runText bs := by
  simp only [linesOf, runText]
  split
  · rename_i h
    rw [beq_iff_eq] at h
    conv_rhs => rw [← List.dropLast_append_getLast? [] h]
    exact (run_concat_nil r _).symm
  · rfl

theorem runText_lineFeed (r : Reader) (bs : Bytes) : r.runText (bs ++ [10]) = r.runText bs := by
  rw [runText, List.splitOnP_append_cons bs [] rfl]
  exact run_concat_nil r _

/-- A line is read by itself, however it ends. -/
theorem runText_line (r : Reader) {line : Bytes} (h : ∀ b ∈ line, isLineEnd b = false)
    (e : LineEnd) (rest : Bytes) :
    r.runText (line ++ (e.bytes ++ rest)) = (r.step line).andThen (rest.splitOnP isLineEnd) := by
  have hsplit (b : UInt8) (hb : isLineEnd b = true) (after : Bytes) :
      (line ++ b :: after).splitOnP isLineEnd = line :: after.splitOnP isLineEnd :=
    List.splitOnP_append_cons_of_forall_mem h b hb after
  have hempty (after : Bytes) : (10 :: after).splitOnP isLineEnd = [] :: after.splitOnP isLineEnd :=
    List.splitOnP_append_cons [] after rfl
  have hskip (o : Outcome) (lines : List Bytes) : o.andThen ([] :: lines) = o.andThen lines := by
    cases o with
    | next r => exact run_cons_nil r lines
    | read result => exact congrArg (result :: ·) (run_cons_nil {} lines)
  rw [runText]
  cases e with
  | lineFeed => exact (congrArg r.run (hsplit 10 rfl rest)).trans (run_cons r _ _)
  | carriageReturn => exact (congrArg r.run (hsplit 13 rfl rest)).trans (run_cons r _ _)
  | both =>
    refine (congrArg r.run (hsplit 13 rfl (10 :: rest))).trans ?_
    rw [run_cons, hempty, hskip]

end Reader

/-! ## Sections -/

theorem Kind.ofLabel?_label (k : Kind) : ofLabel? (Text.utf8 k.label) = some k := by
  cases k <;> decide +kernel

theorem Kind.ofLabel?_eq_some_iff {label : Bytes} {k : Kind} :
    ofLabel? label = some k ↔ label = Text.utf8 k.label := by
  constructor
  · intro h
    rw [ofLabel?] at h
    have hk := List.find?_some h
    exact (eq_of_beq hk).symm
  · rintro rfl
    exact ofLabel?_label k

theorem Kind.label_eq_iff {kind kind' : Kind} :
    Text.utf8 kind.label = Text.utf8 kind'.label ↔ kind = kind' := by
  rw [← ofLabel?_eq_some_iff, ofLabel?_label, Option.some.injEq]

/-- What may stand between the marks of a section. It ends in neither a dash nor a space. -/
def IsLabel (text : Bytes) : Prop :=
  (∀ b ∈ text, isLineEnd b = false) ∧ ∀ b ∈ text.getLast?, b ≠ dash ∧ b ≠ space

instance (text : Bytes) : Decidable (IsLabel text) := inferInstanceAs (Decidable (_ ∧ _))

structure Label where
  text : Bytes
  valid : IsLabel text := by decide +kernel

def dashes : Bytes := Text.utf8 "-----"

def startLine (label : Bytes) : Bytes := startMark ++ label ++ dashes

namespace Label

variable (label : Label)

theorem single_startLine : ∀ b ∈ startLine label.text, isLineEnd b = false := by
  have hmarks : ∀ b ∈ startMark ++ dashes, isLineEnd b = false := by decide +kernel
  intro b hb
  simp only [startLine, List.mem_append] at hb hmarks
  rcases hb with (hb | hb) | hb
  · exact hmarks b (.inl hb)
  · exact label.valid.1 b hb
  · exact hmarks b (.inr hb)

theorem single_endMark : ∀ b ∈ endMark label.text, isLineEnd b = false := by
  have hmarks : ∀ b ∈ endStart ++ dashes, isLineEnd b = false := by decide +kernel
  intro b hb
  simp only [endMark, List.mem_append] at hb hmarks
  rcases hb with (hb | hb) | hb
  · exact hmarks b (.inl hb)
  · exact label.valid.1 b hb
  · exact hmarks b (.inr hb)

end Label

/-- A line outside of all sections, or a whole section. -/
inductive Part
  | line (line : PlainLine)
  | block (label : Label) (startEnd : LineEnd) (body : List PlainLine) (stopEnd : LineEnd)

namespace Part

def bytes : Part → Bytes
  | .line l => l.bytes
  | .block label startEnd body stopEnd =>
    startLine label.text ++ startEnd.bytes ++ body.flatMap PlainLine.bytes
      ++ endMark label.text ++ stopEnd.bytes

def content (body : List PlainLine) : Bytes := body.flatMap PlainLine.text

/-- What is read from a part: the block of a section, or the fault of its content. Nothing is read
from a line, or from a section of an unknown label. -/
def result? : Part → Option (Except Fault Block)
  | .line _ => none
  | .block label _ body _ => (Kind.ofLabel? label.text).map fun kind =>
    ((Base64.decode (content body)).map (Block.mk kind)).mapError .base64

end Part

/-- The text consists of the parts. Its last line need not end. -/
def IsText (parts : List Part) (text : Bytes) : Prop :=
  text = parts.flatMap Part.bytes ∨ text ++ [10] = parts.flatMap Part.bytes

/-- At the end of a line that begins a section stand its dashes, behind a space only if the label is
empty. -/
theorem exists_takeWhile_startLine (label : Label) : ∃ spaces : Bytes,
    (∀ b ∈ spaces, b = space) ∧
      ((startLine label.text).reverse.takeWhile fun b => b == dash || b == space).reverse =
        spaces ++ dashes := by
  obtain ⟨text, -, hends⟩ := label
  have hdashes : ∀ b ∈ dashes.reverse, (b == dash || b == space) = true := by decide +kernel
  have hreverse : (startLine text).reverse = dashes.reverse ++ (startMark ++ text).reverse := by
    rw [startLine, List.reverse_append]
  dsimp only
  rw [hreverse, List.takeWhile_append_of_pos hdashes, List.reverse_append, List.reverse_reverse]
  rcases List.eq_nil_or_concat' text with rfl | ⟨before, b, rfl⟩
  · exact ⟨[space], by simp, by decide +kernel⟩
  · obtain ⟨hdash, hspace⟩ := hends b (by simp)
    refine ⟨[], by simp, ?_⟩
    rw [← List.append_assoc, List.reverse_append, List.reverse_singleton, List.singleton_append,
      List.takeWhile_cons_of_neg (by simp [hdash, hspace])]
    rfl

theorem startLabel?_startLine (label : Label) :
    startLabel? (startLine label.text) = some label.text := by
  obtain ⟨spaces, hspaces, htail⟩ := exists_takeWhile_startLine label
  have hcount : (spaces ++ dashes).count dash = 5 := by
    rw [List.count_append, List.count_eq_zero.mpr fun h => absurd (hspaces _ h) (by decide)]
    rfl
  have hdrop : (spaces ++ dashes).dropWhile (· == space) = dashes := by
    rw [List.dropWhile_append_of_pos fun b hb => by simp [hspaces b hb]]
    rfl
  unfold startLabel?
  rw [htail]
  dsimp only
  rw [if_pos hcount, hdrop, startLine, List.length_append, Nat.add_sub_cancel, List.take_left,
    List.drop_left]

namespace Reader

theorem step_startLine (label : Label) :
    ({} : Reader).step (startLine label.text) = .next { label := some label.text } := by
  refine step_begin {} ?_ (startLabel?_startLine label)
  rw [startLine, List.append_assoc]
  exact List.prefix_append _ _

theorem step_line (l : PlainLine) : ({} : Reader).step l.text = .next {} :=
  step_outside (isPlain_iff.mp l.plain).2.1

theorem step_body (label body : Bytes) (l : PlainLine) :
    (Reader.mk (some label) body).step l.text = .next ⟨some label, body ++ l.text⟩ := by
  refine step_inside body (isPlain_iff.mp l.plain).2.1 fun h => ?_
  refine (isPlain_iff.mp l.plain).2.2 (List.IsPrefix.trans ?_ h)
  rw [endMark, List.append_assoc]
  exact List.prefix_append _ _

theorem step_endMark (label body : Bytes) :
    (Reader.mk (some label) body).step (endMark label) = close label body :=
  step_end body (List.prefix_refl _)

/-- The lines of a section are collected up to its end. -/
theorem runText_body (label body : Bytes) (lines : List PlainLine) (rest : Bytes) :
    (Reader.mk (some label) body).runText (lines.flatMap PlainLine.bytes ++ rest) =
      (Reader.mk (some label) (body ++ Part.content lines)).runText rest := by
  induction lines generalizing body with
  | nil => simp [Part.content]
  | cons l lines ih =>
    rw [List.flatMap_cons, PlainLine.bytes, List.append_assoc, List.append_assoc,
      runText_line _ (isPlain_iff.mp l.plain).1, step_body]
    refine (ih _).trans ?_
    rw [Part.content, Part.content, List.flatMap_cons, List.append_assoc]

/-- What is read from a part comes before all that is read behind it. -/
theorem runText_part (p : Part) (rest : Bytes) :
    ({} : Reader).runText (p.bytes ++ rest) = p.result?.toList ++ ({} : Reader).runText rest := by
  cases p with
  | line l =>
    have hline := (isPlain_iff.mp l.plain).1
    rw [Part.bytes, PlainLine.bytes, List.append_assoc, runText_line _ hline, step_line]
    rfl
  | block label startEnd body stopEnd =>
    simp only [Part.bytes, List.append_assoc]
    rw [runText_line _ label.single_startLine, step_startLine]
    refine (runText_body label.text [] body _).trans ?_
    rw [runText_line _ label.single_endMark, step_endMark, List.nil_append, close, Part.result?]
    cases Kind.ofLabel? label.text with
    | none => rfl
    | some kind =>
      cases Base64.decode (Part.content body) <;> rfl

end Reader

theorem runText_parts (parts : List Part) :
    ({} : Reader).runText (parts.flatMap Part.bytes) = parts.filterMap Part.result? := by
  induction parts with
  | nil => rfl
  | cons p parts ih =>
    rw [List.flatMap_cons, Reader.runText_part, ih, List.filterMap_cons]
    cases p.result? <;> rfl

/-- Whole sections are read one by one. -/
theorem read_of_isText {parts : List Part} {text : Bytes} (h : IsText parts text) :
    read text = parts.filterMap Part.result? := by
  rw [← runText_parts, read, Reader.run_linesOf]
  rcases h with rfl | h
  · rfl
  · rw [← h, Reader.runText_lineFeed]

end Telemetry.Pem
