import AccessRules.Quoted
import AccessRules.Proofs.Lexical.Code

/-! A reader that goes over a text from left to right, waits for the closer of every opening bracket
and passes over quoted strings. `Scanner.Sealed stops t` says that it comes to the end of `t` as it
started, and that it met no character of `stops` outside of all brackets and strings; with no stops
this is `Scanner.Closed`. Sealed texts are a code: where two of them are followed by a stop or by
nothing, equal texts have equal first parts (`Sealed.append_inj`), so that they are told apart in
front of any separator with a stop in it (`Sealed.code`). -/

namespace AccessRules

inductive Scanner.Mode where
  | outside
  | quoted
  /-- Behind a backslash in a string. -/
  | escaped
deriving DecidableEq

/-- The closers that a scanner waits for, the next one first, and where it is. -/
structure Scanner where
  due : List Char
  mode : Scanner.Mode
deriving DecidableEq

namespace Scanner

def start : Scanner := ⟨[], .outside⟩

/-- The closer of an opening bracket. -/
def closer? : Char → Option Char
  | '(' => some ')'
  | '[' => some ']'
  | '\x7b' => some '\x7d'
  | _ => none

def isCloser (c : Char) : Bool :=
  c == ')' || c == ']' || c == '\x7d'

/-- Whether a character means nothing to a scanner outside of strings. -/
def isInert (c : Char) : Bool :=
  c != '"' && (closer? c).isNone && !isCloser c

/-- A bracket outside of strings: an opener is noted, and a closer has to be the one that is due. -/
def bracket (due : List Char) (c : Char) : Option Scanner :=
  match closer? c with
  | some d => some ⟨d :: due, .outside⟩
  | none =>
    if isCloser c then
      match due with
      | d :: ds => if c = d then some ⟨ds, .outside⟩ else none
      | [] => none
    else some ⟨due, .outside⟩

/-- The scanner after a character, none where it cannot go on. -/
def step (stops : Char → Bool) : Scanner → Char → Option Scanner
  | ⟨due, .escaped⟩, _ => some ⟨due, .quoted⟩
  | ⟨due, .quoted⟩, c =>
    if c = '\\' then some ⟨due, .escaped⟩
    else if c = '"' then some ⟨due, .outside⟩
    else some ⟨due, .quoted⟩
  | ⟨due, .outside⟩, c =>
    if due = [] ∧ stops c then none
    else if c = '"' then some ⟨due, .quoted⟩
    else bracket due c

/-- The scanner after a text. -/
def scan (stops : Char → Bool) (s : Scanner) (t : List Char) : Option Scanner :=
  t.foldlM (step stops) s

/-- A text with no unmatched closer that ends outside of strings with no closer due, and that holds
no stop outside of all brackets and strings. -/
def Sealed (stops : Char → Bool) (t : List Char) : Prop :=
  scan stops start t = some start

/-- A text that is lexically closed. -/
def Closed (t : List Char) : Prop :=
  Sealed (fun _ => false) t

instance : Decidable (Sealed stops t) :=
  inferInstanceAs (Decidable (scan stops start t = some start))

instance : Decidable (Closed t) :=
  inferInstanceAs (Decidable (Sealed _ t))

/-- The same scanner inside of more brackets. -/
def inside (s : Scanner) (outer : List Char) : Scanner :=
  ⟨s.due ++ outer, s.mode⟩

@[simp] theorem scan_nil : scan stops s [] = some s := rfl

@[simp] theorem scan_cons : scan stops s (c :: t) = (step stops s c).bind (scan stops · t) := rfl

theorem scan_append : scan stops s (t ++ u) = (scan stops s t).bind (scan stops · u) :=
  List.foldlM_append

/-! ## Frames -/

theorem bracket_inside {due : List Char} (outer : List Char) (h : bracket due c = some s) :
    bracket (due ++ outer) c = some (s.inside outer) := by
  unfold bracket at h ⊢
  split at h
  · cases h
    rfl
  · split at h
    · split at h
      · split at h
        · cases h
          simp_all [inside]
        · cases h
      · cases h
    · cases h
      simp_all [inside]

/-- Inside of brackets there are no stops, and the closers that were due before stay so. -/
theorem step_inside {s s' : Scanner} (h : step stops s c = some s') :
    step stops' (s.inside (d :: outer)) c = some (s'.inside (d :: outer)) := by
  obtain ⟨due, mode⟩ := s
  cases mode with
  | outside =>
    have hdue : ¬(due ++ d :: outer = [] ∧ stops' c = true) := by simp
    simp only [step, inside, if_neg hdue] at h ⊢
    split at h
    · cases h
    · split at h <;> rename_i hc
      · cases h
        rw [if_pos hc]
      · rw [if_neg hc]
        exact bracket_inside _ h
  | quoted =>
    simp only [step, inside] at h ⊢
    split at h <;> rename_i hc
    · cases h
      rw [if_pos hc]
    · rw [if_neg hc]
      split at h <;> rename_i hq <;> cases h
      · rw [if_pos hq]
      · rw [if_neg hq]
  | escaped =>
    cases h
    rfl

theorem scan_inside {s s' : Scanner} (h : scan stops s t = some s') :
    scan stops' (s.inside (d :: outer)) t = some (s'.inside (d :: outer)) := by
  induction t generalizing s with
  | nil =>
    cases h
    rfl
  | cons c t ih =>
    obtain ⟨s₁, h₁, h₂⟩ := Option.bind_eq_some_iff.mp h
    rw [scan_cons, step_inside h₁]
    exact ih h₂

/-! ## Sealed texts -/

theorem Sealed.nil : Sealed stops [] := rfl

theorem Sealed.append (ht : Sealed stops t) (hu : Sealed stops u) : Sealed stops (t ++ u) := by
  unfold Sealed at *
  rw [scan_append, ht]
  exact hu

/-- What follows a sealed text is read as if it stood alone. -/
theorem Sealed.scan_append (ht : Sealed stops t) :
    scan stops start (t ++ u) = scan stops start u := by
  rw [Scanner.scan_append, ht, Option.bind_some]

theorem step_inert (hc : isInert c = true) (hs : stops c = false) :
    step stops start c = some start := by
  simp only [isInert, Bool.and_eq_true, bne_iff_ne, ne_eq, Option.isNone_iff_eq_none,
    Bool.not_eq_true'] at hc
  obtain ⟨⟨hq, hopen⟩, hclose⟩ := hc
  simp [step, start, bracket, hs, hq, hopen, hclose]

theorem Sealed.of_inert (h : ∀ c ∈ t, isInert c = true ∧ stops c = false) : Sealed stops t := by
  induction t with
  | nil => exact .nil
  | cons c t ih =>
    have hc := h c List.mem_cons_self
    unfold Sealed
    rw [scan_cons, step_inert hc.1 hc.2]
    exact ih fun d hd => h d (List.mem_cons_of_mem _ hd)

/-- A sealed text between brackets is sealed, whatever the stops inside and outside. -/
theorem Sealed.enclosed {o : Char} (ho : closer? o = some d) (hs : stops' o = false)
    (ht : Sealed stops t) : Sealed stops' (o :: (t ++ [d])) := by
  have hq : o ≠ '"' := by
    rintro rfl
    cases ho
  have hopen : step stops' start o = some (start.inside [d]) := by
    simp [step, start, bracket, inside, hs, hq, ho]
  have hclose : step stops' (start.inside [d]) d = some start := by
    have hd : d = ')' ∨ d = ']' ∨ d = '\x7d' := by
      unfold closer? at ho
      split at ho <;> cases ho <;> simp
    rcases hd with rfl | rfl | rfl <;> rfl
  unfold Sealed
  rw [scan_cons, hopen, Option.bind_some, Scanner.scan_append, scan_inside ht, Option.bind_some,
    scan_cons, hclose]
  rfl

theorem Sealed.intercalate (hsep : Sealed stops sep) {ts : List (List Char)}
    (hts : ∀ t ∈ ts, Sealed stops t) : Sealed stops (sep.intercalate ts) :=
  intercalate_of_append .nil .append hsep hts

/-- No text that goes on with a stop behind a sealed one is sealed. -/
theorem Sealed.not_stop (ht : Sealed stops t) (h : Sealed stops (t ++ c :: u)) :
    stops c = false := by
  unfold Sealed at h
  rw [ht.scan_append, scan_cons] at h
  obtain ⟨s, hs, -⟩ := Option.bind_eq_some_iff.mp h
  cases hc : stops c with
  | false => rfl
  | true => simp [step, start, hc] at hs

/-- Sealed texts are a code: what follows them, if anything, starts with a stop. -/
theorem Sealed.append_inj (ht : Sealed stops t) (ht' : Sealed stops t')
    (hu : ∀ c ∈ u.head?, stops c = true) (hu' : ∀ c ∈ u'.head?, stops c = true)
    (h : t ++ u = t' ++ u') : t = t' ∧ u = u' := by
  rcases List.append_eq_append_iff.mp h with ⟨v, rfl, rfl⟩ | ⟨v, rfl, rfl⟩
  · cases v with
    | nil => simp
    | cons c v => simpa [ht.not_stop ht'] using hu c rfl
  · cases v with
    | nil => simp
    | cons c v => simpa [ht'.not_stop ht] using hu' c rfl

/-- Sealed texts are told apart in front of separators, which are a stop with something sealed before
it. -/
theorem Sealed.code (hb : Sealed stops before) (hc : stops c = true) (hc' : stops c' = true)
    (ht : Sealed stops t) (ht' : Sealed stops t') (hu : Follows (before ++ c :: after) u)
    (hu' : Follows (before ++ c' :: after') u') (h : t ++ u = t' ++ u') : t = t' ∧ u = u' := by
  rcases hu with rfl | ⟨v, rfl⟩ <;> rcases hu' with rfl | ⟨v', rfl⟩
  · exact ⟨List.append_cancel_right h, rfl⟩
  · rw [List.append_assoc before, ← List.append_assoc] at h
    cases (ht.append_inj (ht'.append hb) (by simp) (by simpa using hc') h).2
  · rw [List.append_assoc before, ← List.append_assoc] at h
    cases ((ht.append hb).append_inj ht' (by simpa using hc) (by simp) h).2
  · have h' : t ++ before ++ c :: (after ++ v) = t' ++ before ++ c' :: (after' ++ v') := by
      simpa using h
    obtain ⟨htexts, hrest⟩ :=
      (ht.append hb).append_inj (ht'.append hb) (by simpa using hc) (by simpa using hc') h'
    refine ⟨List.append_cancel_right htexts, ?_⟩
    rw [List.append_assoc, List.append_assoc, List.cons_append, List.cons_append, hrest]

theorem Closed.of_sealed (h : Sealed stops t) : Closed t := by
  -- a bracket around the text hides its stops, and the text itself is scanned alike without them
  suffices H : ∀ {s s' : Scanner}, scan stops s t = some s' → scan (fun _ => false) s t = some s' by
    exact H h
  clear h
  induction t with
  | nil => exact fun h => h
  | cons c t ih =>
    intro s s' h
    obtain ⟨s₁, h₁, h₂⟩ := Option.bind_eq_some_iff.mp h
    have hstep : step (fun _ => false) s c = some s₁ := by
      obtain ⟨due, mode⟩ := s
      cases mode with
      | outside =>
        simp only [step] at h₁ ⊢
        split at h₁
        · cases h₁
        · simpa using h₁
      | quoted | escaped => exact h₁
    rw [scan_cons, hstep]
    exact ih h₂

/-- Stops that do not occur change nothing. -/
theorem scan_eq_of_not_stop (hs : ∀ c ∈ t, stops c = false) (s : Scanner) :
    scan stops s t = scan (fun _ => false) s t := by
  induction t generalizing s with
  | nil => rfl
  | cons c t ih =>
    have hstep : step stops s c = step (fun _ => false) s c := by
      obtain ⟨due, mode⟩ := s
      cases mode <;> simp [step, hs c List.mem_cons_self]
    rw [scan_cons, scan_cons, hstep]
    exact Option.bind_congr fun s' _ => ih (fun d hd => hs d (List.mem_cons_of_mem _ hd)) s'

theorem Sealed.of_closed (h : Closed t) (hs : ∀ c ∈ t, stops c = false) : Sealed stops t :=
  (scan_eq_of_not_stop hs start).trans h

/-! ## Quoted texts -/

/-- A hexadecimal digit means nothing inside of a string. -/
theorem digitChar_ne (h : n < 16) : Nat.digitChar n ≠ '\\' ∧ Nat.digitChar n ≠ '"' := by
  revert n
  decide

/-- The escape of a character leaves a scanner inside of the string. -/
theorem scan_escape {due : List Char} :
    scan stops ⟨due, .quoted⟩ (Quoted.escape c) = some ⟨due, .quoted⟩ := by
  obtain ⟨d, -, h⟩ | ⟨m, n, hm, hn, h⟩ | ⟨hquote, hbackslash, -, h⟩ := Quoted.escape_cases c
  · rw [h]
    rfl
  · obtain ⟨hm₁, hm₂⟩ := digitChar_ne hm
    obtain ⟨hn₁, hn₂⟩ := digitChar_ne hn
    simp [h, step, hm₁, hm₂, hn₁, hn₂]
  · simp [h, step, hquote, hbackslash]

theorem scan_encode {due : List Char} (s : List Char) :
    scan stops ⟨due, .quoted⟩ (Quoted.encode s) = some ⟨due, .quoted⟩ := by
  induction s with
  | nil => rfl
  | cons c s ih =>
    rw [Quoted.encode, List.flatMap_cons, Scanner.scan_append, scan_escape, Option.bind_some]
    exact ih

/-- A quoted text is sealed, whatever it holds. -/
theorem Sealed.quote (hs : stops '"' = false) (s : String) :
    Sealed stops (Quoted.quote s).toList := by
  have hopen : step stops start '"' = some ⟨[], .quoted⟩ := by simp [step, start, hs]
  unfold Sealed Quoted.quote
  rw [String.toList_ofList, scan_cons, hopen, Option.bind_some, Scanner.scan_append, scan_encode]
  rfl

end Scanner

end AccessRules
