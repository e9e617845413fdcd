import LibShv.Lib.SortedMap

/-!
# LibShv.Lib.LazyMap

A map that caches what a slower source holds. The first question enters all the
keys of the source with blank values; a value is fetched when it is asked for
and found blank. An answer never depends on what was asked before.
-/

namespace LibShv.LazyMap

variable {κ : Type u} {β : Type v} {ε : Type w} [Ord κ] [DecidableEq κ]

/-! ## the cache -/

/-- Where the keys and the values come from; both may fail. -/
structure Source (κ : Type u) (β : Type v) (ε : Type w) where
  keys : Except ε (List κ)
  fetch : κ → Except ε β

/-- How a value shows that it is not fetched yet. -/
structure Blank (β : Type v) where
  blank : β
  isFilled : β → Bool

/-- Enter the keys, if nothing is entered. -/
def enter (src : Source κ β ε) (b : Blank β) (cache : List (κ × β)) :
    Except ε Unit × List (κ × β) :=
  if cache.isEmpty then
    match src.keys with
    | .error e => (.error e, cache)
    | .ok ks => (.ok (), ks.foldl (fun m k => SortedMap.insert k b.blank m) [])
  else (.ok (), cache)

/-- The value of an entered key, fetched if it is blank. -/
def get (src : Source κ β ε) (b : Blank β) (k : κ) (cache : List (κ × β)) :
    Except ε β × List (κ × β) :=
  match SortedMap.find? k cache with
  | none => (.ok b.blank, cache)
  | some v =>
    if b.isFilled v then (.ok v, cache)
    else
      match src.fetch k with
      | .error e => (.error e, cache)
      | .ok v => (.ok v, SortedMap.insert k v cache)

/-- The value of a key. -/
def lookup (src : Source κ β ε) (b : Blank β) (k : κ) (cache : List (κ × β)) :
    Except ε β × List (κ × β) :=
  match enter src b cache with
  | (.error e, cache) => (.error e, cache)
  | (.ok (), cache) => get src b k cache

/-- What the source itself answers. -/
def Source.answer (src : Source κ β ε) (b : Blank β) (k : κ) : Except ε β :=
  match src.keys with
  | .error e => .error e
  | .ok ks => if k ∈ ks then src.fetch k else .ok b.blank

/-! ## coherence -/

/-- The cache is empty, or it has the keys of the source, and every value in it
is the one in the source or blank. -/
def Coherent (src : Source κ β ε) (b : Blank β) (cache : List (κ × β)) : Prop :=
  cache = [] ∨ ∃ ks, src.keys = .ok ks ∧ (∀ k, (SortedMap.find? k cache).isSome ↔ k ∈ ks) ∧
    ∀ k v, SortedMap.find? k cache = some v → b.isFilled v = true → src.fetch k = .ok v

omit [DecidableEq κ] in
theorem coherent_nil (src : Source κ β ε) (b : Blank β) : Coherent src b [] := .inl rfl

/-- A value counts as blank until it is fetched. -/
def Blank.Lawful (b : Blank β) : Prop := b.isFilled b.blank = false

variable [Std.LawfulEqOrd κ] {src : Source κ β ε} {b : Blank β}

theorem find?_foldl_insert (v : β) (ks : List κ) (m : List (κ × β)) (k : κ) :
    SortedMap.find? k (ks.foldl (fun m k => SortedMap.insert k v m) m) =
      if k ∈ ks then some v else SortedMap.find? k m := by
  induction ks generalizing m with
  | nil => simp
  | cons k' ks ih =>
    rw [List.foldl_cons, ih]
    by_cases hk : k ∈ ks
    · simp [hk]
    · by_cases hk' : k = k'
      · simp [hk']
      · simp [hk, hk', SortedMap.find?_insert_of_ne hk']

/-- The keys of the source, all of them blank. -/
theorem find?_blank (ks : List κ) (k : κ) :
    SortedMap.find? k (ks.foldl (fun m k => SortedMap.insert k b.blank m) []) =
      if k ∈ ks then some b.blank else none :=
  find?_foldl_insert b.blank ks [] k

/-- Entering the keys either fails and changes nothing, or the keys are those of the source. -/
theorem enter_cases (hb : b.Lawful) {cache : List (κ × β)} (h : Coherent src b cache) :
    (∃ e, src.keys = .error e ∧ cache = [] ∧ enter src b cache = (.error e, cache)) ∨
    ∃ ks cache', src.keys = .ok ks ∧ enter src b cache = (.ok (), cache') ∧
      (∀ k, (SortedMap.find? k cache').isSome ↔ k ∈ ks) ∧
      ∀ k v, SortedMap.find? k cache' = some v → b.isFilled v = true → src.fetch k = .ok v := by
  by_cases hc : cache = []
  · cases hks : src.keys with
    | error e => exact .inl ⟨e, rfl, hc, by rw [enter, hc, List.isEmpty_nil, if_pos rfl, hks]⟩
    | ok ks =>
      refine .inr ⟨ks, _, rfl, by rw [enter, hc, List.isEmpty_nil, if_pos rfl, hks], ?_, ?_⟩
      · intro k
        rw [find?_blank]
        by_cases hk : k ∈ ks <;> simp [hk]
      · intro k v hv hfilled
        rw [find?_blank] at hv
        by_cases hk : k ∈ ks
        · rw [if_pos hk, Option.some.injEq] at hv
          rw [← hv, hb] at hfilled
          contradiction
        · rw [if_neg hk] at hv
          contradiction
  · obtain hnil | ⟨ks, hks, hkeys, hvals⟩ := h
    · exact absurd hnil hc
    · exact .inr ⟨ks, cache, hks, by rw [enter, if_neg (by simpa using hc)], hkeys, hvals⟩

theorem coherent_enter (hb : b.Lawful) {cache : List (κ × β)} (h : Coherent src b cache) :
    Coherent src b (enter src b cache).2 := by
  obtain ⟨e, -, -, he⟩ | ⟨ks, cache', hks, he, hkeys, hvals⟩ := enter_cases hb h
  · rw [he]
    exact h
  · rw [he]
    exact .inr ⟨ks, hks, hkeys, hvals⟩

/-- A coherent cache with its keys entered answers like the source. -/
theorem get_eq_answer {cache : List (κ × β)} {ks : List κ} (hks : src.keys = .ok ks)
    (hkeys : ∀ k, (SortedMap.find? k cache).isSome ↔ k ∈ ks)
    (hvals : ∀ k v, SortedMap.find? k cache = some v → b.isFilled v = true → src.fetch k = .ok v)
    (k : κ) : (get src b k cache).1 = src.answer b k ∧ Coherent src b (get src b k cache).2 := by
  have hcoherent : Coherent src b cache := .inr ⟨ks, hks, hkeys, hvals⟩
  rw [get, Source.answer, hks]
  cases hf : SortedMap.find? k cache with
  | none =>
    have hk : k ∉ ks := fun hk => by simpa [hf] using (hkeys k).mpr hk
    exact ⟨(if_neg hk).symm, hcoherent⟩
  | some v =>
    have hk : k ∈ ks := (hkeys k).mp (by rw [hf]; rfl)
    simp only [if_pos hk]
    by_cases hv : b.isFilled v = true
    · rw [if_pos hv, hvals k v hf hv]
      exact ⟨rfl, hcoherent⟩
    · rw [if_neg hv]
      cases hfetch : src.fetch k with
      | error e => exact ⟨rfl, hcoherent⟩
      | ok v' =>
        refine ⟨rfl, .inr ⟨ks, hks, fun k' => ?_, fun k' w hw hfilled => ?_⟩⟩
        · by_cases hkk : k' = k
          · rw [hkk, SortedMap.find?_insert_self]
            exact ⟨fun _ => hk, fun _ => rfl⟩
          · rw [SortedMap.find?_insert_of_ne hkk, hkeys]
        · by_cases hkk : k' = k
          · rw [hkk, SortedMap.find?_insert_self, Option.some.injEq] at hw
            rw [hkk, hfetch, hw]
          · rw [SortedMap.find?_insert_of_ne hkk] at hw
            exact hvals k' w hw hfilled

/-- A coherent cache answers like the source, and stays coherent. -/
theorem lookup_eq_answer (hb : b.Lawful) {cache : List (κ × β)} (h : Coherent src b cache) (k : κ) :
    (lookup src b k cache).1 = src.answer b k ∧ Coherent src b (lookup src b k cache).2 := by
  rw [lookup]
  obtain ⟨e, hks, -, he⟩ | ⟨ks, cache', hks, he, hkeys, hvals⟩ := enter_cases hb h
  · rw [he, Source.answer, hks]
    exact ⟨rfl, h⟩
  · rw [he]
    exact get_eq_answer hks hkeys hvals k

end LibShv.LazyMap
