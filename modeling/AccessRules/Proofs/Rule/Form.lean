import AccessRules.Proofs.Value.Text

/-! The shape that the text of a condition has: an atom, a negation, or a group of two or more parts
between parentheses with the same sign between any two of them. A proper form is read back from its
text (`Form.Proper.text_inj`), since a scanner that stops at signs finds the ends of its parts. -/

namespace AccessRules

open Scanner

inductive Junction where
  | all
  | any
deriving DecidableEq

namespace Junction

def sign : Junction → Char
  | .all => '&'
  | .any => '|'

/-- What stands between two parts. -/
def separator (j : Junction) : List Char :=
  [' '] ++ j.sign :: [j.sign, ' ']

def combine : Junction → List Bool → Bool
  | .all, bs => bs.all id
  | .any, bs => bs.any id

def isSign (c : Char) : Bool :=
  c == '&' || c == '|'

theorem sign_inj {j k : Junction} (h : j.sign = k.sign) : j = k := by
  cases j <;> cases k <;> first | rfl | cases h

theorem isSign_sign (j : Junction) : isSign j.sign = true := by
  cases j <;> rfl

theorem separator_inj {j k : Junction} (h : j.separator = k.separator) : j = k :=
  sign_inj (List.cons.inj (List.cons.inj h).2).1

theorem intercalate_separator_inj {j k : Junction} (ht : ∀ t ∈ ts, Sealed isSign t)
    (hu : ∀ u ∈ us, Sealed isSign u) (hts : ts ≠ []) (hus : us ≠ [])
    (h : j.separator.intercalate ts = k.separator.intercalate us) :
    ts = us ∧ (1 < ts.length → j = k) := by
  have hblank : Sealed isSign [' '] := rfl
  have hne : j.separator ≠ [] := List.cons_ne_nil _ _
  have hlen : j.separator.length = k.separator.length := rfl
  obtain ⟨htexts, hsep⟩ := intercalate_inj hne hlen
    (hblank.code (isSign_sign j) (isSign_sign k)) hts hus ht hu h
  exact ⟨htexts, fun hlen => separator_inj (hsep hlen)⟩

end Junction

inductive Form where
  | atom (text : String)
  | not (f : Form)
  | group (j : Junction) (parts : List Form)

namespace Form

mutual
def text : Form → List Char
  | .atom t => t.toList
  | .not f => '!' :: '(' :: (f.text ++ [')'])
  | .group j parts => '(' :: (j.separator.intercalate (texts parts) ++ [')'])

def texts : List Form → List (List Char)
  | [] => []
  | f :: fs => f.text :: texts fs
end

mutual
/-- The meaning of a form where the meaning of each atom is known. -/
def holds (v : String → Bool) : Form → Bool
  | .atom t => v t
  | .not f => !f.holds v
  | .group j parts => j.combine (holdsEach v parts)

def holdsEach (v : String → Bool) : List Form → List Bool
  | [] => []
  | f :: fs => f.holds v :: holdsEach v fs
end

theorem texts_eq_map (fs : List Form) : texts fs = fs.map text := by
  induction fs with
  | nil => rfl
  | cons f fs ih => rw [texts, ih, List.map_cons]

theorem holdsEach_eq_map (fs : List Form) : holdsEach v fs = fs.map (holds v) := by
  induction fs with
  | nil => rfl
  | cons f fs ih => rw [holdsEach, ih, List.map_cons]

/-- Forms that must all hold: one stands for itself, and more make a group. -/
def conj : List Form → Form
  | [f] => f
  | fs => .group .all fs

/-- A text without signs outside of brackets and strings that starts neither as a negation nor as a
group. -/
structure Atomic (t : List Char) : Prop where
  closed : Sealed Junction.isSign t
  head : ∀ c ∈ t.head?, c ≠ '(' ∧ c ≠ '!'

inductive Proper : Form → Prop
  | atom (h : Atomic t.toList) : Proper (.atom t)
  | not (h : Proper f) : Proper (.not f)
  | group (hlen : 2 ≤ parts.length) (h : ∀ f ∈ parts, Proper f) : Proper (.group j parts)

/-- The texts between the sides of a relation start with a blank. -/
theorem Atomic.blank (h : Sealed Junction.isSign (' ' :: t)) : Atomic (' ' :: t) :=
  ⟨h, by simp⟩

theorem Atomic.append (ht : Atomic t) (hu : Atomic u) : Atomic (t ++ u) := by
  refine ⟨ht.closed.append hu.closed, ?_⟩
  cases t with
  | nil => exact hu.head
  | cons c t => exact ht.head

theorem Atomic.ne_cons (h : Atomic t) (hc : c = '(' ∨ c = '!') : t ≠ c :: u := by
  rintro rfl
  have hhead := h.head c rfl
  rcases hc with rfl | rfl
  · exact hhead.1 rfl
  · exact hhead.2 rfl

theorem Proper.sealed (h : Proper f) : Sealed Junction.isSign f.text := by
  induction h with
  | atom h => exact h.closed
  | not _ ih =>
    rw [text]
    exact Sealed.append (t := ['!']) rfl (ih.enclosed rfl rfl)
  | @group parts j _ _ ih =>
    have hsep : Closed j.separator := by cases j <;> rfl
    have hin : Closed (j.separator.intercalate (parts.map text)) :=
      Sealed.intercalate hsep (List.forall_mem_map.mpr fun f hf => Closed.of_sealed (ih f hf))
    rw [text, texts_eq_map]
    exact hin.enclosed rfl rfl

/-- A proper form is read back from its text. -/
theorem Proper.text_inj (hf : Proper f) {g : Form} (hg : Proper g) (h : f.text = g.text) :
    f = g := by
  induction hf generalizing g with
  | atom ht =>
    cases hg with
    | atom hu => rw [String.toList_inj.mp h]
    | not _ => exact absurd h (ht.ne_cons (.inr rfl))
    | group _ _ => exact absurd h (ht.ne_cons (.inl rfl))
  | not _ ih =>
    cases hg with
    | atom hu => exact absurd h.symm (hu.ne_cons (.inr rfl))
    | not hg =>
      simp only [text, List.cons.injEq, true_and] at h
      rw [ih hg (List.append_cancel_right h)]
    | group _ _ => exact absurd (List.cons.inj h).1 (by decide)
  | group hlen hparts ih =>
    cases hg with
    | atom hu => exact absurd h.symm (hu.ne_cons (.inl rfl))
    | not hg => exact absurd (List.cons.inj h).1 (by decide)
    | group hlen' hparts' =>
      simp only [text, texts_eq_map, List.cons.injEq, true_and] at h
      have hsealed : ∀ {fs : List Form}, (∀ f ∈ fs, Proper f) →
          ∀ t ∈ fs.map text, Sealed Junction.isSign t :=
        fun hfs => List.forall_mem_map.mpr fun f hf => (hfs f hf).sealed
      have hne : ∀ {fs : List Form}, 2 ≤ fs.length → fs.map text ≠ [] := by
        intro fs hlen hnil
        rw [List.map_eq_nil_iff.mp hnil] at hlen
        cases hlen
      obtain ⟨htexts, hjunction⟩ := Junction.intercalate_separator_inj (hsealed hparts)
        (hsealed hparts') (hne hlen) (hne hlen') (List.append_cancel_right h)
      have hforms := eq_of_map_eq (fun f hf g hg => ih f hf (hparts' g hg)) htexts
      rw [hjunction (by rwa [List.length_map]), hforms]

end Form

end AccessRules
