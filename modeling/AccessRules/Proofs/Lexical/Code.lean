/-! Lists that are read back from what they are put together into. A list is cut in one way at the
first mark (`cut_inj`), at the last one (`cut_last_inj`) and where a property of its members ends
(`span_inj`). Where the members of a list can be told apart in front of a separator and at the end, the
separated text has only one reading (`intercalate_inj`). -/

namespace AccessRules

variable {α β γ : Type}

/-- What stands before the first occurrence of a mark, and what stands behind it. -/
theorem cut_inj {a : α} {t t' u u' : List α} (ht : a ∉ t) (ht' : a ∉ t')
    (h : t ++ a :: u = t' ++ a :: u') : t = t' ∧ u = u' := by
  induction t generalizing t' with
  | nil =>
    cases t' with
    | nil => exact ⟨rfl, (List.cons.inj h).2⟩
    | cons b t' =>
      obtain ⟨rfl, -⟩ := List.cons.inj h
      exact absurd List.mem_cons_self ht'
  | cons b t ih =>
    cases t' with
    | nil =>
      obtain ⟨rfl, -⟩ := List.cons.inj h
      exact absurd List.mem_cons_self ht
    | cons b' t' =>
      obtain ⟨rfl, htail⟩ := List.cons.inj h
      obtain ⟨rfl, rfl⟩ := ih (fun hm => ht (List.mem_cons_of_mem _ hm))
        (fun hm => ht' (List.mem_cons_of_mem _ hm)) htail
      exact ⟨rfl, rfl⟩

/-- What stands behind the last occurrence of a mark, and what stands before it. -/
theorem cut_last_inj {a : α} {t t' u u' : List α} (hu : a ∉ u) (hu' : a ∉ u')
    (h : t ++ a :: u = t' ++ a :: u') : t = t' ∧ u = u' := by
  have hreverse := congrArg List.reverse h
  simp only [List.reverse_append, List.reverse_cons, List.append_assoc, List.singleton_append]
    at hreverse
  obtain ⟨hback, hfront⟩ := cut_inj (mt List.mem_reverse.mp hu) (mt List.mem_reverse.mp hu') hreverse
  exact ⟨List.reverse_inj.mp hfront, List.reverse_inj.mp hback⟩

section
variable {p : α → Bool} {t t' u u' : List α}

theorem takeWhile_append_stop (ht : ∀ a ∈ t, p a) (hu : ∀ a ∈ u.head?, p a = false) :
    (t ++ u).takeWhile p = t := by
  rw [List.takeWhile_append_of_pos ht]
  cases u with
  | nil => simp
  | cons a u => simp [hu a rfl]

theorem dropWhile_append_stop (ht : ∀ a ∈ t, p a) (hu : ∀ a ∈ u.head?, p a = false) :
    (t ++ u).dropWhile p = u := by
  rw [List.dropWhile_append_of_pos ht]
  cases u with
  | nil => rfl
  | cons a u => simp [hu a rfl]

/-- What a list may start with so that members that have a property end in front of it. -/
theorem stop_cons (ha : p a = false) (u : List α) : ∀ b ∈ (a :: u).head?, p b = false := by
  rintro b ⟨rfl⟩
  exact ha

/-- The longest start of a list that has a property, and what stands behind it. -/
theorem span_inj (ht : ∀ a ∈ t, p a) (ht' : ∀ a ∈ t', p a) (hu : ∀ a ∈ u.head?, p a = false)
    (hu' : ∀ a ∈ u'.head?, p a = false) (h : t ++ u = t' ++ u') : t = t' ∧ u = u' := by
  have htake := congrArg (List.takeWhile p) h
  rw [takeWhile_append_stop ht hu, takeWhile_append_stop ht' hu'] at htake
  subst htake
  exact ⟨rfl, List.append_cancel_left h⟩

end

/-- Lists with equal images under `f` have equal images under what `f` settles. -/
theorem map_eq_of_map_eq {f : α → β} {g : α → γ} {as bs : List α}
    (hfg : ∀ a ∈ as, ∀ b ∈ bs, f a = f b → g a = g b) (h : as.map f = bs.map f) :
    as.map g = bs.map g := by
  induction as generalizing bs with
  | nil => rw [List.map_eq_nil_iff.mp h.symm]
  | cons a as ih =>
    cases bs with
    | nil => cases h
    | cons b bs =>
      obtain ⟨hhead, htail⟩ := List.cons.inj h
      rw [List.map_cons, List.map_cons, hfg a List.mem_cons_self b List.mem_cons_self hhead,
        ih (fun a ha b hb => hfg a (List.mem_cons_of_mem _ ha) b (List.mem_cons_of_mem _ hb)) htail]

theorem eq_of_map_eq {f : α → β} {as bs : List α}
    (hf : ∀ a ∈ as, ∀ b ∈ bs, f a = f b → a = b) (h : as.map f = bs.map f) : as = bs := by
  have hmap : as.map id = bs.map id := map_eq_of_map_eq hf h
  rwa [List.map_id, List.map_id] at hmap

/-- What the empty list has and putting lists one after the other keeps, a separated text has. -/
theorem intercalate_of_append {P : List α → Prop} {sep : List α} {ts : List (List α)} (nil : P [])
    (append : ∀ {t u}, P t → P u → P (t ++ u)) (hsep : P sep) (hts : ∀ t ∈ ts, P t) :
    P (sep.intercalate ts) := by
  induction ts with
  | nil => exact nil
  | cons t ts ih =>
    have ht := hts t List.mem_cons_self
    cases ts with
    | nil => rwa [List.intercalate_singleton]
    | cons u ts =>
      rw [List.intercalate_cons_cons]
      exact append (append ht hsep) (ih fun v hv => hts v (List.mem_cons_of_mem _ hv))

theorem mem_or_of_mem_intercalate {sep : List α} {ts : List (List α)} (h : a ∈ sep.intercalate ts) :
    a ∈ sep ∨ ∃ t ∈ ts, a ∈ t := by
  induction ts with
  | nil => cases h
  | cons t ts ih =>
    cases ts with
    | nil =>
      rw [List.intercalate_singleton] at h
      exact .inr ⟨t, List.mem_cons_self, h⟩
    | cons u ts =>
      rw [List.intercalate_cons_cons, List.mem_append, List.mem_append] at h
      rcases h with (h | h) | h
      · exact .inr ⟨t, List.mem_cons_self, h⟩
      · exact .inl h
      · obtain hsep | ⟨v, hv, hav⟩ := ih h
        · exact .inl hsep
        · exact .inr ⟨v, List.mem_cons_of_mem _ hv, hav⟩

theorem mem_intercalate_cons {sep t : List α} (h : a ∈ t) (ts : List (List α)) :
    a ∈ sep.intercalate (t :: ts) := by
  cases ts with
  | nil => rwa [List.intercalate_singleton]
  | cons u ts =>
    rw [List.intercalate_cons_cons]
    exact List.mem_append_left _ (List.mem_append_left _ h)

/-- What stands around a member of a separated text does not depend on it. -/
theorem intercalate_append_cons (sep t : List α) (before after : List (List α)) :
    sep.intercalate (before ++ t :: after) =
      before.flatMap (· ++ sep) ++ (t ++ after.flatMap (sep ++ ·)) := by
  induction before generalizing t with
  | nil =>
    rw [List.nil_append, List.flatMap_nil, List.nil_append]
    induction after generalizing t with
    | nil => rw [List.intercalate_singleton, List.flatMap_nil, List.append_nil]
    | cons u after ih =>
      rw [List.intercalate_cons_cons, ih, List.flatMap_cons, List.append_assoc, List.append_assoc]
  | cons b before ih =>
    have hcons : sep.intercalate (b :: (before ++ t :: after)) =
        b ++ sep ++ sep.intercalate (before ++ t :: after) := by
      cases before <;> exact List.intercalate_cons_cons
    rw [List.cons_append, hcons, ih, List.flatMap_cons, List.append_assoc (b ++ sep)]

/-- A separator or nothing. -/
def Follows (sep u : List α) : Prop :=
  u = [] ∨ sep <+: u

/-- Members that are told apart in front of separators are read back from the separated text, and
with them the separator if there is one. -/
theorem intercalate_inj {P : List α → Prop} {sep sep' : List α} (hne : sep ≠ [])
    (hlen : sep.length = sep'.length)
    (hcode : ∀ {t t' u u'}, P t → P t' → Follows sep u → Follows sep' u' →
      t ++ u = t' ++ u' → t = t' ∧ u = u') {ts us : List (List α)} (hts : ts ≠ []) (hus : us ≠ [])
    (ht : ∀ t ∈ ts, P t) (hu : ∀ u ∈ us, P u) (h : sep.intercalate ts = sep'.intercalate us) :
    ts = us ∧ (1 < ts.length → sep = sep') := by
  have hne' : sep' ≠ [] := by
    rintro rfl
    exact hne (List.eq_nil_of_length_eq_zero hlen)
  induction ts generalizing us with
  | nil => exact absurd rfl hts
  | cons t ts ih =>
    cases us with
    | nil => exact absurd rfl hus
    | cons u us =>
      have ht₀ := ht t List.mem_cons_self
      have hu₀ := hu u List.mem_cons_self
      cases ts with
      | nil =>
        cases us with
        | nil => simpa using h
        | cons u' us =>
          rw [List.intercalate_singleton, List.intercalate_cons_cons, List.append_assoc,
            ← List.append_nil t] at h
          have hrest := (hcode ht₀ hu₀ (.inl rfl) (.inr (List.prefix_append _ _)) h).2
          exact absurd (List.append_eq_nil_iff.mp hrest.symm).1 hne'
      | cons t' ts =>
        cases us with
        | nil =>
          rw [List.intercalate_singleton, List.intercalate_cons_cons, List.append_assoc,
            ← List.append_nil u] at h
          have hrest := (hcode ht₀ hu₀ (.inr (List.prefix_append _ _)) (.inl rfl) h).2
          exact absurd (List.append_eq_nil_iff.mp hrest).1 hne
        | cons u' us =>
          rw [List.intercalate_cons_cons, List.intercalate_cons_cons, List.append_assoc,
            List.append_assoc] at h
          obtain ⟨rfl, hrest⟩ := hcode ht₀ hu₀ (.inr (List.prefix_append _ _))
            (.inr (List.prefix_append _ _)) h
          obtain ⟨rfl, hrest⟩ := List.append_inj hrest hlen
          obtain ⟨htail, -⟩ := ih (by simp) (by simp) (fun v hv => ht v (List.mem_cons_of_mem _ hv))
            (fun v hv => hu v (List.mem_cons_of_mem _ hv)) hrest
          exact ⟨by rw [htail], fun _ => rfl⟩

end AccessRules
