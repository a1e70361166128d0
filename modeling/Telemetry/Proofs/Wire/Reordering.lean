import Telemetry.Proofs.Wire.Compatibility

/-! Messages with the entries of their key maps in another order (`Reorders`). A field of an element
sets its name, inserts an entry, or does nothing (`PathElem.exists_update`), and an entry may be
inserted before or after everything but an entry of its own key. So the same message is read
(`Reorders.run_iff`). -/

namespace Telemetry

open Wire

/-! ## Entries -/

theorem skipInto_eq_ok {σ : Type} {depth : Nat} {k : Key} {st st' : σ} {s r : Bytes}
    (h : skipInto depth k st s = .ok (st', r)) : st' = st := by
  obtain ⟨_, -, he⟩ := exists_of_map_eq_ok h
  exact (congrArg Prod.fst he).symm

/-- The levels that are left have no influence on what is read of a field of an entry. -/
theorem KeyEntry.readField_unique {depth depth' : Nat} {k : Key} {e x y : KeyEntry} {s r r' : Bytes}
    (h : KeyEntry.readField depth k e s = .ok (x, r))
    (h' : KeyEntry.readField depth' k e s = .ok (y, r')) : x = y := by
  rcases k with ⟨_ | _ | _ | number, w⟩
  case succ.zero | succ.succ.zero =>
    cases h.symm.trans h'
    rfl
  all_goals exact (skipInto_eq_ok h).trans (skipInto_eq_ok h').symm

theorem KeyEntry.run_unique {depth depth' : Nat} {bs : Bytes} {e x y : KeyEntry}
    (h : FieldRun (KeyEntry.readField depth) e bs x)
    (h' : FieldRun (KeyEntry.readField depth') e bs y) : x = y := by
  induction h with
  | nil => exact h'.eq_of_nil.symm
  | cons hk hread _ ih =>
    obtain ⟨taken, htaken, hp, -⟩ :=
      MessageType.reader_takes .keyEntry depth _ _ _ _ _ (hread [])
    cases List.append_cancel_right htaken
    obtain ⟨st₁, hread', hrest⟩ := MessageType.exists_next_of_run (m := .keyEntry) hk hp h'
    obtain rfl := KeyEntry.readField_unique (hread []) (hread' [])
    exact ih hrest

/-- With enough levels the bytes are read as an entry. -/
def KeyEntry.IsReadAs (bs : Bytes) (e : KeyEntry) : Prop :=
  ∃ depth, FieldRun (KeyEntry.readField depth) {} bs e

theorem KeyEntry.IsReadAs.unique {bs : Bytes} {x y : KeyEntry} (hx : KeyEntry.IsReadAs bs x)
    (hy : KeyEntry.IsReadAs bs y) : x = y := by
  obtain ⟨_, hx⟩ := hx
  obtain ⟨_, hy⟩ := hy
  exact KeyEntry.run_unique hx hy

/-! ## Fields of an element -/

/-- What a field does to the element that has been read so far. -/
inductive ElemUpdate
  | setName (name : String)
  | insert (key value : String)
  | keep

def ElemUpdate.apply (e : PathElem) : ElemUpdate → PathElem
  | .setName name => { e with name := name }
  | .insert k v => { e with keys := e.keys.insert k v }
  | .keep => e

/-- An entry is inserted before or after everything but an entry of its own key. -/
theorem ElemUpdate.apply_comm {k : String} {u : ElemUpdate} (h : ∀ v, u ≠ .insert k v)
    (v : String) (e : PathElem) :
    u.apply ((insert k v).apply e) = (insert k v).apply (u.apply e) := by
  cases u with
  | setName | keep => rfl
  | insert k' v' =>
    have hne : k ≠ k' := by
      rintro rfl
      exact h v' rfl
    exact congrArg (PathElem.mk e.name) (e.keys.insert_comm hne v v')

/-- A payload that makes an update whenever it is read: the insertion of the entry that it holds, or
another update. -/
structure PathElem.IsUpdate (levels : Nat) (k : Key) (payload : Bytes) (u : ElemUpdate) : Prop where
  reads : ∀ e r, PathElem.readField levels k e (payload ++ r) = .ok (u.apply e, r)
  entry : k.number = 2 → ∃ body x, IsDelimited payload body ∧ KeyEntry.IsReadAs body x ∧
    u = .insert x.key x.value
  other : k.number ≠ 2 → ∀ key value, u ≠ .insert key value

namespace PathElem

variable {levels : Nat} {payload : Bytes} {e e' : PathElem}

theorem exists_update_of_name {w : WireType}
    (h : readField levels ⟨1, w⟩ e (payload ++ []) = .ok (e', [])) :
    ∃ u, IsUpdate levels ⟨1, w⟩ payload u := by
  have hcarries (e : PathElem) (s : Bytes) : Carries (readField levels ⟨1, w⟩ e s)
      (readTextField w s) (fun text => { e with name := text }) := .of_inField _ rfl
  obtain ⟨name, hname, -⟩ := (hcarries e _).exists_of_eq_ok h
  obtain ⟨taken, htaken, -, hread⟩ := readTextField_takes w _ _ _ hname
  cases List.append_cancel_right htaken
  exact ⟨.setName name, fun e r => (hcarries e _).ok _ r (hread r), nofun, nofun⟩

theorem exists_update_of_entry {w : WireType}
    (h : readField levels ⟨2, w⟩ e (payload ++ []) = .ok (e', [])) :
    ∃ u, IsUpdate levels ⟨2, w⟩ payload u := by
  have hcarries (e : PathElem) (s : Bytes) : Carries (readField levels ⟨2, w⟩ e s)
      (readSubmessage levels KeyEntry.readField .delimited {} s)
      (fun x => { e with keys := e.keys.insert x.key x.value }) :=
    .of_inField _ (readField_key levels w e s)
  obtain ⟨x, hx, -⟩ := (hcarries e _).exists_of_eq_ok h
  obtain ⟨-, d, rfl, hdelimited⟩ := readSubmessage_eq_ok hx
  obtain ⟨taken, body, htaken, hp, hrun⟩ :=
    exists_run_of_readDelimited (fun k st => MessageType.reader_takes .keyEntry d k st) hdelimited
  cases List.append_cancel_right htaken
  exact ⟨.insert x.key x.value, fun e r => (hcarries e _).ok x r (readDelimited_run hrun hp r),
    fun _ => ⟨body, x, hp, ⟨d, hrun⟩, rfl⟩, fun hne => absurd rfl hne⟩

theorem exists_update_of_undeclared {k : Key} (hk : ¬MessageType.pathElem.Declares k.number)
    (h : readField levels k e (payload ++ []) = .ok (e', [])) :
    ∃ u, IsUpdate levels k payload u := by
  have hskips (e : PathElem) (s : Bytes) : readField levels k e s = skipInto levels k e s :=
    PathElem.follows.undeclared k.number hk levels k.wireType e s
  rw [hskips] at h
  obtain ⟨rest, hskip, heq⟩ := exists_of_map_eq_ok h
  cases heq
  obtain ⟨height, hle, taken, htaken, hp⟩ := skipField_skipsWithin levels _ _ _ hskip
  cases List.append_cancel_right htaken
  refine ⟨.keep, fun e r => ?_, fun h2 => absurd (h2 ▸ by decide) hk, fun _ => nofun⟩
  rw [hskips, skipInto, skipField_of_isPayload hp, if_pos hle]
  rfl

theorem exists_update {k : Key} (h : ∀ r, readField levels k e (payload ++ r) = .ok (e', r)) :
    ∃ u, IsUpdate levels k payload u ∧ e' = u.apply e := by
  have hupdate : ∃ u, IsUpdate levels k payload u := by
    obtain ⟨number, w⟩ := k
    by_cases hdeclared : MessageType.pathElem.Declares number
    · simp only [MessageType.Declares, MessageType.fields, List.map_cons, List.map_nil,
        List.mem_cons, List.not_mem_nil, or_false] at hdeclared
      rcases hdeclared with rfl | rfl
      · exact exists_update_of_name (h [])
      · exact exists_update_of_entry (h [])
    · exact exists_update_of_undeclared hdeclared (h [])
  obtain ⟨u, hu⟩ := hupdate
  have he := (h []).symm.trans (hu.reads e [])
  exact ⟨u, hu, (Prod.mk.inj (Except.ok.inj he)).1⟩

/-- The updates of an entry and of a field that is no entry of its key. -/
theorem IsUpdate.comm {k k' : Key} {body payload' : Bytes} {x : KeyEntry} {u u' : ElemUpdate}
    (hu : IsUpdate levels k payload u) (hu' : IsUpdate levels k' payload' u') (hk : k.number = 2)
    (hp : IsDelimited payload body) (hx : KeyEntry.IsReadAs body x)
    (hother : k'.number = 2 → ∀ body' x', IsDelimited payload' body' →
      KeyEntry.IsReadAs body' x' → x'.key ≠ x.key) (e : PathElem) :
    u'.apply (u.apply e) = u.apply (u'.apply e) := by
  obtain ⟨body₁, y, hp₁, hy, rfl⟩ := hu.entry hk
  obtain ⟨-, rfl⟩ := hp.unique hp₁ (r := []) (s := []) rfl
  obtain rfl := hx.unique hy
  refine ElemUpdate.apply_comm (fun v he => ?_) _ e
  by_cases hk' : k'.number = 2
  · obtain ⟨body', x', hp', hx', rfl⟩ := hu'.entry hk'
    have hkey : x'.key = x.key := (ElemUpdate.insert.inj he).1
    exact hother hk' body' x' hp' hx' hkey
  · exact hu'.other hk' _ _ he

/-- Two fields whose updates may be made in either order. -/
theorem run_exchange {k k' : Key} {key key' payload' after : Bytes}
    (hk : IsKey key k) (hp : MessageType.pathElem.HasPayload k payload)
    (hk' : IsKey key' k') (hp' : MessageType.pathElem.HasPayload k' payload')
    (hcomm : ∀ u u', IsUpdate levels k payload u → IsUpdate levels k' payload' u' → ∀ e,
      u'.apply (u.apply e) = u.apply (u'.apply e))
    (h : FieldRun (readField levels) e (key ++ payload ++ (key' ++ payload' ++ after)) e') :
    FieldRun (readField levels) e (key' ++ payload' ++ (key ++ payload ++ after)) e' := by
  obtain ⟨e₁, hread, hrest⟩ := MessageType.exists_next_of_run (m := .pathElem) hk hp h
  obtain ⟨e₂, hread', hafter⟩ := MessageType.exists_next_of_run (m := .pathElem) hk' hp' hrest
  obtain ⟨u, hu, rfl⟩ := exists_update hread
  obtain ⟨u', hu', rfl⟩ := exists_update hread'
  have hafter : FieldRun (readField levels) (u'.apply (u.apply e)) after e' := hafter
  rw [hcomm u u' hu hu' e] at hafter
  exact .cons hk' (hu'.reads e) (.cons hk (hu.reads _) hafter)

end PathElem

/-! ## Messages -/

/-- Bytes that differ in the order of the entries of key maps. An entry is exchanged with the field
behind it, unless that is an entry of the same key. The element may be in whatever message, and the
lengths of the messages around it be written in any way. -/
inductive Reorders : MessageType → Bytes → Bytes → Prop
  | refl {m : MessageType} {bs : Bytes} : Reorders m bs bs
  | symm {m : MessageType} {bs bs' : Bytes} : Reorders m bs bs' → Reorders m bs' bs
  | trans {m : MessageType} {bs bs' bs'' : Bytes} : Reorders m bs bs' → Reorders m bs' bs'' →
    Reorders m bs bs''
  | swap {k k' : Key} {before key payload body key' payload' after : Bytes} {x : KeyEntry} :
    MessageType.pathElem.AreFields before → IsKey key k → k.number = 2 →
    IsDelimited payload body → KeyEntry.IsReadAs body x →
    IsKey key' k' → MessageType.pathElem.HasPayload k' payload' →
    (k'.number = 2 → ∀ body' x', IsDelimited payload' body' → KeyEntry.IsReadAs body' x' →
      x'.key ≠ x.key) →
    Reorders .pathElem (before ++ (key ++ payload ++ (key' ++ payload' ++ after)))
      (before ++ (key' ++ payload' ++ (key ++ payload ++ after)))
  | inside {m m' : MessageType} {k : Key} {before key payload payload' body body' after : Bytes} :
    m.AreFields before → IsKey key k → (k.number, .message m') ∈ m.fields →
    IsDelimited payload body → IsDelimited payload' body' → Reorders m' body body' →
    Reorders m (before ++ (key ++ payload ++ after)) (before ++ (key ++ payload' ++ after))

/-- The order of the entries has no influence on what is read, whatever the levels that are left. -/
theorem Reorders.run_iff {m : MessageType} {bs bs' : Bytes} (h : Reorders m bs bs') :
    ∀ {levels : Nat} {st st' : m.State},
      FieldRun (m.reader levels) st bs st' ↔ FieldRun (m.reader levels) st bs' st' := by
  induction h with
  | refl => exact Iff.rfl
  | symm _ ih => exact ih.symm
  | trans _ _ ih ih' => exact ih.trans ih'
  | @swap k _ _ _ payload _ _ _ _ _ hb hk hn hp hx hk' hp' hother =>
    have ht : (k.number, .message .keyEntry) ∈ MessageType.pathElem.fields := by
      rw [hn]
      decide
    have hentry : MessageType.pathElem.HasPayload k payload := .declared ht ⟨_, hp⟩
    -- The exchange is undone by another one, so that each direction is one exchange.
    intro levels st st'
    constructor
    · intro hrun
      obtain ⟨e, hbefore, hrest⟩ := MessageType.split_run hb hrun
      exact hbefore.append (PathElem.run_exchange hk hentry hk' hp'
        (fun _ _ hu hu' => hu.comm hu' hn hp hx hother) hrest)
    · intro hrun
      obtain ⟨e, hbefore, hrest⟩ := MessageType.split_run hb hrun
      exact hbefore.append (PathElem.run_exchange hk' hp' hk hentry
        (fun _ _ hu' hu e => (hu.comm hu' hn hp hx hother e).symm) hrest)
  | inside hb hk ht hp hp' _ ih =>
    exact ⟨MessageType.run_inside hb hk ht hp hp' fun _ _ _ _ => ih.mp,
      MessageType.run_inside hb hk ht hp' hp fun _ _ _ _ => ih.mpr⟩

theorem Reorders.decode_iff {m : MessageType} {bs bs' : Bytes} (h : Reorders m bs bs')
    (x : m.State) : m.decode bs = .ok x ↔ m.decode bs' = .ok x := by
  rw [MessageType.decode_eq_ok_iff, MessageType.decode_eq_ok_iff, h.run_iff]

end Telemetry
