import Mathlib

/-!
# LibShv.Lib.Replay

Replaying a log of events. An event makes some records and removes others; a record is
there at the end when some event made it and no later one removed it.

A step may fail, and an invariant of the states may be needed to say what it does.
-/

namespace LibShv.Replay

variable {σ : Type u} {η : Type v} {ρ : Type w} {ε : Type x}

/-- Some event made the record, and no later one removed it. -/
def Survives (makes removes : η → ρ → Prop) (events : List η) (r : ρ) : Prop :=
  ∃ earlier e later, events = earlier ++ e :: later ∧ makes e r ∧ ∀ d ∈ later, ¬removes d r

variable {makes removes : η → ρ → Prop}

theorem not_survives_nil (r : ρ) : ¬Survives makes removes [] r := by
  rintro ⟨earlier, e, later, h, -⟩
  exact absurd h.symm (by simp)

/-- The last event made the record, or it left it alone. -/
theorem survives_concat {events : List η} {a : η} {r : ρ} :
    Survives makes removes (events ++ [a]) r ↔
      makes a r ∨ Survives makes removes events r ∧ ¬removes a r := by
  constructor
  · rintro ⟨earlier, e, later, h, hmakes, hkept⟩
    rcases List.eq_nil_or_concat later with rfl | ⟨later, d, rfl⟩
    · obtain ⟨rfl, hae⟩ := List.append_inj' h rfl
      obtain rfl : a = e := by simpa using hae
      exact .inl hmakes
    · have h' : events ++ [a] = (earlier ++ e :: later) ++ [d] := by simpa using h
      obtain ⟨rfl, had⟩ := List.append_inj' h' rfl
      obtain rfl : a = d := by simpa using had
      exact .inr ⟨⟨earlier, e, later, rfl, hmakes, fun d hd => hkept d (by simp [hd])⟩,
        hkept a (by simp)⟩
  · rintro (hmakes | ⟨⟨earlier, e, later, rfl, hmakes, hkept⟩, ha⟩)
    · exact ⟨events, a, [], rfl, hmakes, nofun⟩
    · refine ⟨earlier, e, later ++ [a], by simp, hmakes, fun d hd => ?_⟩
      rcases List.mem_append.mp hd with hd | hd
      · exact hkept d hd
      · obtain rfl := List.mem_singleton.mp hd
        exact ha

/-! ## checkpoints -/

theorem Survives.of_append {old new : List η} {r : ρ} (h : Survives makes removes new r) :
    Survives makes removes (old ++ new) r := by
  obtain ⟨earlier, e, later, rfl, hmakes, hkept⟩ := h
  exact ⟨old ++ earlier, e, later, by simp, hmakes, hkept⟩

theorem survives_append {old new : List η} {r : ρ} :
    Survives makes removes (old ++ new) r ↔ Survives makes removes new r ∨
      Survives makes removes old r ∧ ∀ d ∈ new, ¬removes d r := by
  constructor
  · rintro ⟨earlier, e, later, heq, hmakes, hkept⟩
    rcases List.append_eq_append_iff.mp heq with ⟨mid, rfl, rfl⟩ | ⟨mid, rfl, hlater⟩
    · exact .inl ⟨mid, e, later, rfl, hmakes, hkept⟩
    · cases mid with
      | nil => exact .inl ⟨[], e, later, by simpa using hlater.symm, hmakes, hkept⟩
      | cons e' mid =>
        obtain ⟨rfl, rfl⟩ := List.cons.inj hlater
        exact .inr ⟨⟨earlier, e, mid, rfl, hmakes, fun d hd => hkept d (by simp [hd])⟩,
          fun d hd => hkept d (by simp [hd])⟩
  · rintro (h | ⟨⟨earlier, e, later, rfl, hmakes, hkept⟩, hnew⟩)
    · exact h.of_append
    · refine ⟨earlier, e, later ++ new, by simp, hmakes, fun d hd => ?_⟩
      exact (List.mem_append.mp hd).elim (hkept d) (hnew d)

/-- After a checkpoint, which removes all the records there are, a replay may start at it. -/
theorem survives_append_of_removed {old new : List η} {r : ρ}
    (h : Survives makes removes old r → ∃ d ∈ new, removes d r) :
    Survives makes removes (old ++ new) r ↔ Survives makes removes new r := by
  rw [survives_append, or_iff_left]
  rintro ⟨hold, hnew⟩
  obtain ⟨d, hd, hremoves⟩ := h hold
  exact hnew d hd hremoves

/-- Leaving out events that do not remove a record adds none. -/
theorem Survives.of_filter {events : List η} {p : η → Bool} {r : ρ}
    (hp : ∀ d ∈ events, removes d r → p d = true)
    (h : Survives makes removes (events.filter p) r) : Survives makes removes events r := by
  obtain ⟨earlier, e, later, heq, hmakes, hkept⟩ := h
  obtain ⟨front, back, rfl, -, hback⟩ := List.filter_eq_append_iff.mp heq
  obtain ⟨skipped, later', rfl, -, -, rfl⟩ := List.filter_eq_cons_iff.mp hback
  refine ⟨front ++ skipped, e, later', by simp, hmakes, fun d hd hremoves => ?_⟩
  have hpd := hp d (by simp [hd]) hremoves
  exact hkept d (List.mem_filter.mpr ⟨hd, hpd⟩) hremoves

/-! ## replaying -/

/-- What a step does to the records, and the invariant it needs and keeps. -/
structure Replays (Inv : σ → Prop) (mem : σ → ρ → Prop) (makes removes : η → ρ → Prop)
    (step : σ → η → Except ε σ) : Prop where
  inv : ∀ {s e s'}, Inv s → step s e = .ok s' → Inv s'
  mem_iff : ∀ {s e s'}, Inv s → step s e = .ok s' →
    ∀ r, mem s' r ↔ makes e r ∨ mem s r ∧ ¬removes e r

variable {Inv : σ → Prop} {mem : σ → ρ → Prop} {step : σ → η → Except ε σ} {s₀ s : σ}

theorem foldlM_concat_eq_ok {events : List η} {a : η}
    (h : (events ++ [a]).foldlM step s₀ = .ok s) :
    ∃ s₁, events.foldlM step s₀ = .ok s₁ ∧ step s₁ a = .ok s := by
  rw [List.foldlM_append] at h
  cases hs : events.foldlM step s₀ with
  | error e => simp [hs, bind, Except.bind] at h
  | ok s₁ =>
    refine ⟨s₁, rfl, ?_⟩
    simp only [hs, bind, Except.bind, List.foldlM_cons, List.foldlM_nil] at h
    cases ha : step s₁ a with
    | error e => simp [ha] at h
    | ok s₂ => simpa [ha, pure, Except.pure] using h

/-- After a replay the records are those that survive it. -/
theorem Replays.foldlM (h : Replays Inv mem makes removes step) (hinv : Inv s₀)
    (hempty : ∀ r, ¬mem s₀ r) {events : List η} (hs : events.foldlM step s₀ = .ok s) :
    Inv s ∧ ∀ r, mem s r ↔ Survives makes removes events r := by
  -- from the last event backwards, as the later events decide
  obtain ⟨n, hn⟩ : ∃ n, events.length = n := ⟨_, rfl⟩
  induction n generalizing events s with
  | zero =>
    obtain rfl := List.eq_nil_of_length_eq_zero hn
    obtain rfl : s₀ = s := Except.ok.inj hs
    exact ⟨hinv, fun r => iff_of_false (hempty r) (not_survives_nil r)⟩
  | succ n ih =>
    rcases List.eq_nil_or_concat events with rfl | ⟨events, a, rfl⟩
    · contradiction
    · rw [List.concat_eq_append] at hs
      rw [List.length_concat] at hn
      obtain ⟨s₁, hs₁, hstep⟩ := foldlM_concat_eq_ok hs
      obtain ⟨hinv₁, hmem⟩ := ih hs₁ (Nat.succ.inj hn)
      refine ⟨h.inv hinv₁ hstep, fun r => ?_⟩
      rw [h.mem_iff hinv₁ hstep, List.concat_eq_append, survives_concat, hmem]

end LibShv.Replay
