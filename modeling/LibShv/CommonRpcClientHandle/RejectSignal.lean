import LibShv.CommonRpcClientHandle
import Mathlib.Data.List.Perm.Basic
import Mathlib.Data.Multiset.AddSub

/-!
# LibShv.CommonRpcClientHandle.RejectSignal

Which subscription is given up when a peer rejects a signal
(`CommonRpcClientHandle::rejectNotSubscribedSignal`): the scan for the most explicit one
stops at the first that is for every method.
-/

namespace LibShv

namespace CommonRpcClientHandle

/-! ## the scan -/

/-- The loop of `rejectNotSubscribedSignal` from the index `i` on; no index stands for -1. -/
def mostExplicit (isMatch : Subscription → Bool) (i max_path_len : Nat)
    (most_explicit_subs_ix : Option Nat) : List Subscription → Option Nat
  | [] => most_explicit_subs_ix
  | subs :: rest =>
    if isMatch subs then
      if subs.method = [] then some i
      else if max_path_len < subs.path.length then
        mostExplicit isMatch (i + 1) subs.path.length (some i) rest
      else mostExplicit isMatch (i + 1) max_path_len most_explicit_subs_ix rest
    else mostExplicit isMatch (i + 1) max_path_len most_explicit_subs_ix rest

/-- `rejectNotSubscribedSignal`. -/
def rejectNotSubscribedSignal (handle : CommonRpcClientHandle) (path method source : Bytes) :
    Bool × CommonRpcClientHandle :=
  match mostExplicit (·.matchSignal path method source) 0 0 none handle.m_subscriptions with
  | some ix => (true, { handle with m_subscriptions := handle.m_subscriptions.eraseIdx ix })
  | none => (false, handle)

/-! ## what is to be removed -/

/-- A longer path, or the same length and a method that is named. -/
def MoreExplicit (s t : Subscription) : Prop :=
  t.path.length < s.path.length ∨
    t.path.length = s.path.length ∧ s.method ≠ [] ∧ t.method = []

theorem not_moreExplicit_self (s : Subscription) : ¬MoreExplicit s s := by
  rintro (hlt | ⟨-, hnamed, hempty⟩)
  · exact lt_irrefl _ hlt
  · exact hnamed hempty

/-- One of the subscriptions that match is removed, and none that stays is more explicit; without
any nothing changes. -/
def RemovesMostExplicit (isMatch : Subscription → Bool) (old new : List Subscription) : Prop :=
  ((∃ s ∈ old, isMatch s = true) →
    ∃ s, isMatch s = true ∧ old.Perm (s :: new) ∧ new.Sublist old ∧
      ∀ t ∈ new, isMatch t = true → ¬MoreExplicit t s) ∧
  ((∀ s ∈ old, isMatch s = false) → new = old)

/-- The first one that matches for every method is as explicit as any that matches; without such
one, not only subscriptions to the root match. -/
def FirstIsMostExplicit (isMatch : Subscription → Bool) (subs : List Subscription) : Prop :=
  match subs.find? fun s => isMatch s && decide (s.method = []) with
  | some first => ∀ t ∈ subs, isMatch t = true → ¬MoreExplicit t first
  | none => (∃ s ∈ subs, isMatch s = true) → ∃ s ∈ subs, isMatch s = true ∧ s.path ≠ []

section Scan

variable {isMatch : Subscription → Bool} {before after : List Subscription} {first : Subscription}

/-- The scan stops at the first one that is for every method. -/
theorem mostExplicit_of_first (hfirst : isMatch first = true) (hmethod : first.method = [])
    (hbefore : ∀ t ∈ before, isMatch t = true → t.method ≠ []) (i max_path_len : Nat)
    (ix : Option Nat) :
    mostExplicit isMatch i max_path_len ix (before ++ first :: after) =
      some (i + before.length) := by
  induction before generalizing i max_path_len ix with
  | nil => simp [mostExplicit, hfirst, hmethod]
  | cons t before ih =>
    have hrest := ih fun u hu => hbefore u (List.mem_cons_of_mem _ hu)
    rw [List.cons_append, mostExplicit, List.length_cons, Nat.add_comm before.length 1,
      ← Nat.add_assoc]
    by_cases hmatch : isMatch t = true
    · rw [if_pos hmatch, if_neg (hbefore t List.mem_cons_self hmatch)]
      split
      · exact hrest _ _ _
      · exact hrest _ _ _
    · rw [if_neg hmatch]
      exact hrest _ _ _

/-- Otherwise it keeps a subscription with the longest path that is longer than `max_path_len`. -/
theorem mostExplicit_of_named {subs : List Subscription}
    (hnamed : ∀ t ∈ subs, isMatch t = true → t.method ≠ []) (i max_path_len : Nat)
    (ix : Option Nat) :
    (mostExplicit isMatch i max_path_len ix subs = ix ∧
        ∀ t ∈ subs, isMatch t = true → t.path.length ≤ max_path_len) ∨
      ∃ j, ∃ h : j < subs.length, mostExplicit isMatch i max_path_len ix subs = some (i + j) ∧
        isMatch subs[j] = true ∧ max_path_len < subs[j].path.length ∧
        ∀ t ∈ subs, isMatch t = true → t.path.length ≤ subs[j].path.length := by
  induction subs generalizing i max_path_len ix with
  | nil => exact .inl ⟨rfl, by simp⟩
  | cons s subs ih =>
    have hrest := ih fun t ht => hnamed t (List.mem_cons_of_mem _ ht)
    have hshift (j : Nat) : some (i + 1 + j) = some (i + (j + 1)) := by
      rw [Nat.add_assoc, Nat.add_comm 1 j]
    rw [mostExplicit]
    by_cases hmatch : isMatch s = true
    · rw [if_pos hmatch, if_neg (hnamed s List.mem_cons_self hmatch)]
      by_cases hlonger : max_path_len < s.path.length
      · -- this one is kept, or one of the rest that is longer still
        rw [if_pos hlonger]
        right
        obtain ⟨hix, hall⟩ | ⟨j, hj, hix, hmatchj, hlt, hall⟩ :=
          hrest (i + 1) s.path.length (some i)
        · exact ⟨0, by simp, hix, hmatch, hlonger,
            List.forall_mem_cons.mpr ⟨fun _ => le_refl _, hall⟩⟩
        · exact ⟨j + 1, by simpa using hj, hix.trans (hshift j), hmatchj, hlonger.trans hlt,
            List.forall_mem_cons.mpr ⟨fun _ => hlt.le, hall⟩⟩
      · rw [if_neg hlonger]
        have hshort := Nat.le_of_not_lt hlonger
        obtain ⟨hix, hall⟩ | ⟨j, hj, hix, hmatchj, hlt, hall⟩ := hrest (i + 1) max_path_len ix
        · exact .inl ⟨hix, List.forall_mem_cons.mpr ⟨fun _ => hshort, hall⟩⟩
        · exact .inr ⟨j + 1, by simpa using hj, hix.trans (hshift j), hmatchj, hlt,
            List.forall_mem_cons.mpr ⟨fun _ => hshort.trans hlt.le, hall⟩⟩
    · rw [if_neg hmatch]
      obtain ⟨hix, hall⟩ | ⟨j, hj, hix, hmatchj, hlt, hall⟩ := hrest (i + 1) max_path_len ix
      · exact .inl ⟨hix, List.forall_mem_cons.mpr ⟨fun h => absurd h hmatch, hall⟩⟩
      · exact .inr ⟨j + 1, by simpa using hj, hix.trans (hshift j), hmatchj, hlt,
          List.forall_mem_cons.mpr ⟨fun h => absurd h hmatch, hall⟩⟩

/-- The list after the scan. -/
def removed (isMatch : Subscription → Bool) (subs : List Subscription) : List Subscription :=
  match mostExplicit isMatch 0 0 none subs with
  | some ix => subs.eraseIdx ix
  | none => subs

theorem removed_of_first (hfirst : isMatch first = true) (hmethod : first.method = [])
    (hbefore : ∀ t ∈ before, isMatch t = true → t.method ≠ []) :
    removed isMatch (before ++ first :: after) = before ++ after := by
  rw [removed, mostExplicit_of_first hfirst hmethod hbefore]
  simp only [Nat.zero_add]
  rw [List.eraseIdx_append_of_length_le (le_refl _), Nat.sub_self, List.eraseIdx_cons_zero]

/-- With one for every method the scan is right if that one is right. -/
theorem removesMostExplicit_of_first (hfirst : isMatch first = true) (hmethod : first.method = [])
    (hbefore : ∀ t ∈ before, isMatch t = true → t.method ≠ []) :
    RemovesMostExplicit isMatch (before ++ first :: after)
        (removed isMatch (before ++ first :: after)) ↔
      ∀ t ∈ before ++ first :: after, isMatch t = true → ¬MoreExplicit t first := by
  rw [removed_of_first hfirst hmethod hbefore]
  constructor
  · rintro ⟨hremoves, -⟩
    obtain ⟨s, -, hperm, -, hall⟩ := hremoves ⟨first, by simp, hfirst⟩
    have hsame : first = s := by
      have hcoe := Multiset.coe_eq_coe.mpr (List.perm_middle.symm.trans hperm)
      rw [← Multiset.cons_coe, ← Multiset.cons_coe] at hcoe
      exact (Multiset.cons_inj_left _).mp hcoe
    intro t ht hmatch
    rw [List.perm_middle.mem_iff, List.mem_cons] at ht
    obtain rfl | ht := ht
    · exact not_moreExplicit_self t
    · rw [hsame]
      exact hall t ht hmatch
  · intro hall
    refine ⟨fun _ => ⟨first, hfirst, List.perm_middle, ?_, ?_⟩, ?_⟩
    · exact (List.Sublist.refl before).append (List.sublist_cons_self first after)
    · intro t ht hmatch
      exact hall t (List.perm_middle.mem_iff.mpr (List.mem_cons_of_mem _ ht)) hmatch
    · intro hnone
      rw [hnone first (by simp)] at hfirst
      contradiction

/-- Without one it is right unless only subscriptions to the root match. -/
theorem removesMostExplicit_of_named {subs : List Subscription}
    (hnamed : ∀ t ∈ subs, isMatch t = true → t.method ≠ []) :
    RemovesMostExplicit isMatch subs (removed isMatch subs) ↔
      ((∃ s ∈ subs, isMatch s = true) → ∃ s ∈ subs, isMatch s = true ∧ s.path ≠ []) := by
  obtain ⟨hix, hall⟩ | ⟨j, hj, hix, hmatchj, hlt, hall⟩ := mostExplicit_of_named hnamed 0 0 none
  · have hsame : removed isMatch subs = subs := by rw [removed, hix]
    rw [hsame]
    constructor
    · rintro ⟨hremoves, -⟩ hsome
      obtain ⟨s, -, hperm, -⟩ := hremoves hsome
      exact absurd hperm.length_eq (by simp)
    · intro hroot
      refine ⟨?_, fun _ => rfl⟩
      intro hsome
      obtain ⟨s, hs, hmatch, hpath⟩ := hroot hsome
      exact absurd (List.eq_nil_of_length_eq_zero (Nat.le_zero.mp (hall s hs hmatch))) hpath
  · have herase : removed isMatch subs = subs.eraseIdx j := by
      rw [removed, hix]
      simp only [Nat.zero_add]
    have hmem : subs[j] ∈ subs := List.getElem_mem hj
    refine iff_of_true ⟨?_, ?_⟩ fun _ => ⟨subs[j], hmem, hmatchj, List.ne_nil_of_length_pos hlt⟩
    · rw [herase]
      refine fun _ => ⟨subs[j], hmatchj, (List.getElem_cons_eraseIdx_perm hj).symm,
        List.eraseIdx_sublist subs j, ?_⟩
      rintro t ht hmatch (hlonger | ⟨-, -, hempty⟩)
      · exact absurd (hall t ((List.eraseIdx_sublist subs j).subset ht) hmatch) hlonger.not_ge
      · exact hnamed _ hmem hmatchj hempty
    · intro hnone
      rw [hnone _ hmem] at hmatchj
      contradiction

end Scan

/-- The right subscription is removed exactly if the first one for every method may be. -/
theorem rejectNotSubscribedSignal_iff (handle : CommonRpcClientHandle)
    (path method source : Bytes) :
    RemovesMostExplicit (·.matchSignal path method source) handle.m_subscriptions
        (handle.rejectNotSubscribedSignal path method source).2.m_subscriptions ↔
      FirstIsMostExplicit (·.matchSignal path method source) handle.m_subscriptions := by
  have hremoved : (handle.rejectNotSubscribedSignal path method source).2.m_subscriptions =
      removed (·.matchSignal path method source) handle.m_subscriptions := by
    rw [rejectNotSubscribedSignal, removed]
    cases mostExplicit (·.matchSignal path method source) 0 0 none handle.m_subscriptions <;> rfl
  rw [hremoved, FirstIsMostExplicit]
  generalize handle.m_subscriptions = subs
  cases hfind : subs.find? fun s => s.matchSignal path method source && decide (s.method = []) with
  | some first =>
    obtain ⟨hfirst, before, after, rfl, hbefore⟩ := List.find?_eq_some_iff_append.mp hfind
    simp only [Bool.and_eq_true, decide_eq_true_eq] at hfirst
    exact removesMostExplicit_of_first hfirst.1 hfirst.2 fun t ht hmatch hempty => by
      simpa [hmatch, hempty] using hbefore t ht
  | none =>
    rw [List.find?_eq_none] at hfind
    exact removesMostExplicit_of_named fun t ht hmatch hempty =>
      hfind t ht (by simp [hmatch, hempty])

/-- A client with these subscriptions. -/
def clientWith (m_subscriptions : List Subscription) : CommonRpcClientHandle :=
  ⟨1, .client false [], [], true, m_subscriptions⟩

/-- A subscription to everything goes before the one to the signal itself, and the only one to the
root is not found. -/
theorem not_removesMostExplicit :
    ((clientWith [.new [] [] [], .new (ascii "a") (ascii "chng") []]).rejectNotSubscribedSignal
        (ascii "a") (ascii "chng") []).2.m_subscriptions =
      [.new (ascii "a") (ascii "chng") []] ∧
    ¬RemovesMostExplicit (·.matchSignal (ascii "a") (ascii "chng") [])
      [.new [] [] [], .new (ascii "a") (ascii "chng") []] [.new (ascii "a") (ascii "chng") []] ∧
    ((clientWith [.new [] (ascii "chng") []]).rejectNotSubscribedSignal
        (ascii "a") (ascii "chng") []).2.m_subscriptions = [.new [] (ascii "chng") []] ∧
    ¬RemovesMostExplicit (·.matchSignal (ascii "a") (ascii "chng") [])
      [.new [] (ascii "chng") []] [.new [] (ascii "chng") []] := by
  refine ⟨by decide, ?_, by decide, ?_⟩
  · rintro ⟨hremoves, -⟩
    obtain ⟨s, -, hperm, -, hall⟩ := hremoves ⟨.new [] [] [], by decide, by decide⟩
    have hroot : Subscription.new [] [] [] = s := by
      have hmem := hperm.mem_iff.mp (@List.mem_cons_self _ (Subscription.new [] [] []) _)
      refine (List.mem_cons.mp hmem).resolve_right ?_
      decide
    subst hroot
    exact hall (.new (ascii "a") (ascii "chng") []) (by decide) (by decide) (.inl (by decide))
  · rintro ⟨hremoves, -⟩
    obtain ⟨s, -, hperm, -⟩ := hremoves ⟨.new [] (ascii "chng") [], by decide, by decide⟩
    exact absurd hperm.length_eq (by simp)

end CommonRpcClientHandle

end LibShv
