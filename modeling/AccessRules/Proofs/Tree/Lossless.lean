import AccessRules.Tree.Basic

/-! What it means that a stored form is lossless on finite numbers, and how it follows from two facts
about a writer and a reader: reading back what was written gives it, or nothing if a number in it is
not finite (`keep`), and whatever is read holds finite numbers only (`Lossless.intro`). Both pass from
the items of a list to the list. -/

namespace AccessRules

/-- The trees inside a tree, without those inside of them. -/
def Tree.children : Tree → List Tree
  | .list items => items
  | .object fields => fields.map Prod.snd
  | _ => []

@[elab_as_elim]
theorem Tree.ind {motive : Tree → Prop}
    (node : ∀ t : Tree, (∀ u ∈ t.children, motive u) → motive t) (t : Tree) : motive t := by
  refine @Tree.rec motive (fun ts => ∀ t ∈ ts, motive t)
    (fun fields => ∀ t ∈ fields.map Prod.snd, motive t) (fun f => motive f.2) ?_ ?_ ?_ ?_ ?_
    (fun items ih => node _ ih) (fun fields ih => node _ ih) ?_ ?_ ?_ ?_ ?_ t
  · exact node _ fun u h => nomatch h
  · exact fun b => node _ fun u h => nomatch h
  · exact fun n => node _ fun u h => nomatch h
  · exact fun x => node _ fun u h => nomatch h
  · exact fun s => node _ fun u h => nomatch h
  · exact fun u h => nomatch h
  · exact fun t ts ht hts => List.forall_mem_cons.mpr ⟨ht, hts⟩
  · exact fun u h => nomatch h
  · exact fun f fs hf hfs => List.forall_mem_cons.mpr ⟨hf, hfs⟩
  · exact fun _ _ h => h

def AllFinite (xs : List Binary64) : Prop :=
  ∀ x ∈ xs, x.isFinite

namespace AllFinite

theorem nil : AllFinite [] := fun _ h => nomatch h

theorem append (hxs : AllFinite xs) (hys : AllFinite ys) : AllFinite (xs ++ ys) :=
  List.forall_mem_append.mpr ⟨hxs, hys⟩

theorem flatMap {as : List α} {f : α → List Binary64} (h : ∀ a ∈ as, AllFinite (f a)) :
    AllFinite (as.flatMap f) := by
  intro x hx
  obtain ⟨a, ha, hxa⟩ := List.mem_flatMap.mp hx
  exact h a ha x hxa

end AllFinite

/-- Something with these numbers, if all of them are finite. -/
def keep (xs : List Binary64) (a : α) : Option α :=
  if xs.all Binary64.isFinite then some a else none

@[simp] theorem keep_nil (a : α) : keep [] a = some a := rfl

@[simp] theorem keep_map (f : α → β) : (keep xs a).map f = keep xs (f a) := by
  unfold keep
  split <;> rfl

theorem keep_bind_keep (f : α → β → γ) (a : α) (b : β) :
    ((keep xs a).bind fun x => (keep ys b).bind fun y => some (f x y)) = keep (xs ++ ys) (f a b) := by
  unfold keep
  rw [List.all_append]
  cases xs.all Binary64.isFinite <;> cases ys.all Binary64.isFinite <;> rfl

theorem keep_of_finite (h : AllFinite xs) (a : α) : keep xs a = some a :=
  if_pos (List.all_eq_true.mpr h)

theorem keep_eq_some (h : keep xs a = some b) : AllFinite xs ∧ b = a := by
  unfold keep at h
  split at h <;> cases h
  rename_i hxs
  exact ⟨List.all_eq_true.mp hxs, rfl⟩

/-- Reading what is written succeeds just if all numbers in it are finite, and gives it back; and
what was read once is read again from what is written of it. -/
structure Lossless (write : α → Tree) (read? : Tree → Option α) (floats : α → List Binary64) :
    Prop where
  isSome_iff : ∀ a, (read? (write a)).isSome ↔ AllFinite (floats a)
  eq_of_read : ∀ a b, read? (write a) = some b → b = a
  reread : ∀ t a, read? t = some a → read? (write a) = some a

theorem Lossless.intro {write : α → Tree} {read? : Tree → Option α} {floats : α → List Binary64}
    (hkeep : ∀ a, read? (write a) = keep (floats a) a)
    (hfinite : ∀ t a, read? t = some a → AllFinite (floats a)) : Lossless write read? floats where
  isSome_iff a := by
    refine ⟨fun h => ?_, fun h => ?_⟩
    · obtain ⟨b, hb⟩ := Option.isSome_iff_exists.mp h
      rw [hkeep] at hb
      exact (keep_eq_some hb).1
    · rw [hkeep, keep_of_finite h]
      rfl
  eq_of_read a b h := by
    rw [hkeep] at h
    exact (keep_eq_some h).2
  reread t a h := by rw [hkeep, keep_of_finite (hfinite t a h)]

/-! ## Lists -/

theorem mapM_keep {write : α → Tree} {read? : Tree → Option α} {floats : α → List Binary64}
    {as : List α} (h : ∀ a ∈ as, read? (write a) = keep (floats a) a) :
    (as.map write).mapM read? = keep (as.flatMap floats) as := by
  induction as with
  | nil => rfl
  | cons a as ih =>
    rw [List.map_cons, List.mapM_cons, h a List.mem_cons_self,
      ih fun b hb => h b (List.mem_cons_of_mem _ hb)]
    exact keep_bind_keep List.cons a as

theorem exists_of_mem_mapM {read? : Tree → Option α} {ts : List Tree} {as : List α}
    (h : ts.mapM read? = some as) (ha : a ∈ as) : ∃ t ∈ ts, read? t = some a := by
  induction ts generalizing as with
  | nil =>
    cases h
    cases ha
  | cons t ts ih =>
    rw [List.mapM_cons] at h
    obtain ⟨b, hb, h⟩ := Option.bind_eq_some_iff.mp h
    obtain ⟨bs, hbs, h⟩ := Option.bind_eq_some_iff.mp h
    cases h
    rcases List.mem_cons.mp ha with rfl | ha
    · exact ⟨t, List.mem_cons_self, hb⟩
    · obtain ⟨u, hu, hua⟩ := ih hbs ha
      exact ⟨u, List.mem_cons_of_mem _ hu, hua⟩

theorem allFinite_of_mapM {read? : Tree → Option α} {floats : α → List Binary64} {ts : List Tree}
    {as : List α} (h : ts.mapM read? = some as)
    (hts : ∀ t ∈ ts, ∀ a, read? t = some a → AllFinite (floats a)) :
    AllFinite (as.flatMap floats) := by
  refine AllFinite.flatMap fun a ha => ?_
  obtain ⟨t, ht, hta⟩ := exists_of_mem_mapM h ha
  exact hts t ht a hta

theorem allFinite_of_listOf? {t : Tree} {read? : Tree → Option α} {floats : α → List Binary64}
    {as : List α} (h : t.listOf? read? = some as)
    (ht : ∀ u ∈ t.children, ∀ a, read? u = some a → AllFinite (floats a)) :
    AllFinite (as.flatMap floats) := by
  unfold Tree.listOf? at h
  split at h
  · exact allFinite_of_mapM h ht
  · cases h

/-! ## Numbers -/

namespace Binary64

theorem isFinite_of_ofInt? (h : ofInt? n = some x) : x.isFinite := by
  unfold ofInt? at h
  dsimp only at h
  split at h
  · cases h
    rfl
  split at h <;> cases h
  rename_i hlt
  simp only [isFinite, exponentBits, bne_iff_ne, UInt64.toNat_ofNat', signWeight, hiddenBit]
    at hlt ⊢
  -- the sign bit lies above the exponent bits, which are those of the magnitude
  split <;> omega

end Binary64

namespace Tree

theorem isFinite_of_binary64? (h : binary64? t = some x) : x.isFinite := by
  unfold binary64? at h
  split at h
  · exact Binary64.isFinite_of_ofInt? h
  · split at h <;> cases h
    assumption
  · cases h

theorem binary64?_ofBinary64 (x : Binary64) : binary64? (ofBinary64 x) = keep [x] x := by
  unfold ofBinary64 keep
  rw [List.all_cons, List.all_nil, Bool.and_true]
  split
  · exact if_pos ‹_›
  · rfl

theorem int64?_toInt (n : Int64) : int64? n.toInt = some n := by
  unfold int64?
  rw [if_pos ⟨Int64.minValue_le_toInt n, Int64.toInt_le n⟩, Int64.ofInt_toInt]

end Tree

end AccessRules
