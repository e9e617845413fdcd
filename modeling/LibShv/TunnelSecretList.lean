import Mathlib
import LibShv.RpcValue

/-!
# LibShv.TunnelSecretList

`TunnelSecretList` (`tunnelsecretlist.cpp`): the secrets a broker has handed out for its tunnels,
each good for ten seconds and two uses.
-/

namespace LibShv

/-- `max_age_msec`. -/
def maxAgeMsec : Int64 := 10 * 1000

/-- `TunnelSecretList::Secret`. -/
structure Secret where
  createdMsec : Int64
  secret : Bytes
  hitCnt : UInt8 := 0
deriving DecidableEq

/-- `m_secretList`. -/
abbrev TunnelSecretList := List Secret

/-- What `removeOldSecrets` removes and `checkSecret` passes over. -/
def Secret.outOfAge (now : Int64) (sc : Secret) : Bool :=
  let age := now - sc.createdMsec
  age < 0 || maxAgeMsec < age

namespace TunnelSecretList

/-- `checkSecret`, `now` its reading of the clock. -/
def checkSecret (now : Int64) (s : Bytes) : TunnelSecretList → Bool × TunnelSecretList
  | [] => (false, [])
  | sc :: rest =>
    if sc.outOfAge now then ((checkSecret now s rest).1, sc :: (checkSecret now s rest).2)
    else if sc.secret = s then
      let sc := { sc with hitCnt := sc.hitCnt + 1 }
      if sc.hitCnt ≤ 2 then (true, sc :: rest)
      else ((checkSecret now s rest).1, sc :: (checkSecret now s rest).2)
    else ((checkSecret now s rest).1, sc :: (checkSecret now s rest).2)

/-- `removeOldSecrets`. -/
def removeOldSecrets (now : Int64) (l : TunnelSecretList) : TunnelSecretList :=
  l.filter fun sc => !sc.outOfAge now

/-- `createSecret`, `hash` the digest of the random numbers: what it returns. -/
def createSecret (now : Int64) (hash : Bytes) (l : TunnelSecretList) : TunnelSecretList :=
  l.removeOldSecrets now ++ [{ createdMsec := now, secret := hash }]

/-! ## runs -/

/-- A call with its reading of the clock. -/
inductive Call
  | createSecret (now : Int64) (hash : Bytes)
  | checkSecret (now : Int64) (s : Bytes)
deriving DecidableEq

namespace Call

def now : Call → Int64
  | createSecret now _ => now
  | checkSecret now _ => now

/-- The secret a call makes. -/
def made : Call → Option Bytes
  | createSecret _ hash => some hash
  | checkSecret _ _ => none

/-- A check of `s` while one made at `t` is no older than it may be. -/
def asks (t : Int64) (s : Bytes) : Call → Bool
  | createSecret _ _ => false
  | checkSecret now s' => s' == s && decide (now.toInt - t.toInt ≤ maxAgeMsec.toInt)

end Call

def step (l : TunnelSecretList) : Call → TunnelSecretList
  | .createSecret now hash => l.createSecret now hash
  | .checkSecret now s => (l.checkSecret now s).2

/-- The list after some calls. -/
def run (l : TunnelSecretList) (calls : List Call) : TunnelSecretList := calls.foldl step l

/-- A call is a check of `s` that accepts it. -/
def accepts (l : TunnelSecretList) (s : Bytes) : Call → Bool
  | .createSecret _ _ => false
  | .checkSecret now s' => s' == s && (l.checkSecret now s').1

/-- How often `s` is accepted. -/
def acceptCount (s : Bytes) : TunnelSecretList → List Call → ℕ
  | _, [] => 0
  | l, c :: cs => (l.accepts s c).toNat + acceptCount s (l.step c) cs

theorem acceptCount_append (s : Bytes) (l : TunnelSecretList) (as bs : List Call) :
    acceptCount s l (as ++ bs) = acceptCount s l as + acceptCount s (l.run as) bs := by
  induction as generalizing l with
  | nil => rw [List.nil_append, acceptCount, Nat.zero_add]; rfl
  | cons a as ih =>
    rw [List.cons_append, acceptCount, acceptCount, ih, Nat.add_assoc]
    rfl

/-! ## one secret of the list -/

/-- The entries of one secret. -/
def entriesOf (s : Bytes) (l : TunnelSecretList) : TunnelSecretList :=
  l.filter fun sc => sc.secret == s

theorem entriesOf_cons_self (s : Bytes) (sc : Secret) (h : sc.secret = s) (l : TunnelSecretList) :
    entriesOf s (sc :: l) = sc :: entriesOf s l :=
  List.filter_cons_of_pos (beq_iff_eq.2 h)

theorem entriesOf_cons_ne (s : Bytes) (sc : Secret) (h : sc.secret ≠ s) (l : TunnelSecretList) :
    entriesOf s (sc :: l) = entriesOf s l :=
  List.filter_cons_of_neg (by simpa using h)

/-- A check looks at the entries of its own secret, and changes no others. -/
theorem checkSecret_entriesOf (now : Int64) (s : Bytes) (l : TunnelSecretList) :
    (l.checkSecret now s).1 = ((entriesOf s l).checkSecret now s).1 ∧
      entriesOf s (l.checkSecret now s).2 = ((entriesOf s l).checkSecret now s).2 := by
  induction l with
  | nil => exact ⟨rfl, rfl⟩
  | cons sc rest ih =>
    by_cases hs : sc.secret = s
    · rw [entriesOf_cons_self s _ hs]
      by_cases hold : sc.outOfAge now = true
      · simp only [checkSecret, if_pos hold]
        exact ⟨ih.1, by rw [entriesOf_cons_self s _ hs, ih.2]⟩
      · by_cases hhit : sc.hitCnt + 1 ≤ 2
        · simp only [checkSecret, if_neg hold, if_pos hs, if_pos hhit]
          exact ⟨trivial,
            entriesOf_cons_self s { sc with hitCnt := sc.hitCnt + 1 } hs rest⟩
        · simp only [checkSecret, if_neg hold, if_pos hs, if_neg hhit]
          exact ⟨ih.1, by
            rw [entriesOf_cons_self s { sc with hitCnt := sc.hitCnt + 1 } hs, ih.2]⟩
    · rw [entriesOf_cons_ne s _ hs]
      by_cases hold : sc.outOfAge now = true
      · simp only [checkSecret, if_pos hold]
        exact ⟨ih.1, by rw [entriesOf_cons_ne s _ hs, ih.2]⟩
      · simp only [checkSecret, if_neg hold, if_neg hs]
        exact ⟨ih.1, by rw [entriesOf_cons_ne s _ hs, ih.2]⟩

theorem entriesOf_checkSecret_ne (now : Int64) {s s' : Bytes} (h : s' ≠ s)
    (l : TunnelSecretList) : entriesOf s (l.checkSecret now s').2 = entriesOf s l := by
  induction l with
  | nil => rfl
  | cons sc rest ih =>
    have hkeep : ∀ sc' : Secret, sc'.secret = sc.secret → sc.secret ≠ s →
        entriesOf s (sc' :: rest) = entriesOf s (sc :: rest) := fun sc' heq hne => by
      rw [entriesOf_cons_ne s _ (heq ▸ hne), entriesOf_cons_ne s _ hne]
    have hcons : entriesOf s (sc :: (checkSecret now s' rest).2) = entriesOf s (sc :: rest) := by
      by_cases hs : sc.secret = s
      · rw [entriesOf_cons_self s _ hs, entriesOf_cons_self s _ hs, ih]
      · rw [entriesOf_cons_ne s _ hs, entriesOf_cons_ne s _ hs, ih]
    rw [checkSecret]
    split
    · exact hcons
    · split
      · next heq =>
        have hne : sc.secret ≠ s := heq ▸ h
        dsimp only
        split
        · exact hkeep _ rfl hne
        · exact (entriesOf_cons_ne s { sc with hitCnt := sc.hitCnt + 1 } hne _).trans
            (ih.trans (entriesOf_cons_ne s _ hne _).symm)
      · exact hcons

theorem entriesOf_createSecret_ne (now : Int64) {s hash : Bytes} (h : hash ≠ s)
    (l : TunnelSecretList) :
    entriesOf s (l.createSecret now hash) = (entriesOf s l).removeOldSecrets now := by
  rw [createSecret, entriesOf, List.filter_append, List.filter_cons_of_neg (by simpa using h),
    List.filter_nil, List.append_nil, removeOldSecrets, removeOldSecrets, entriesOf,
    List.filter_comm]

/-- A secret is passed over when more than ten seconds have gone by: between two readings of a
clock that does not go back the difference cannot wrap into the ten seconds. -/
theorem outOfAge_eq_false_iff {now : Int64} (sc : Secret) (h : sc.createdMsec ≤ now) :
    sc.outOfAge now = false ↔ now.toInt - sc.createdMsec.toInt ≤ maxAgeMsec.toInt := by
  have hle := Int64.le_iff_toInt_le.1 h
  have hlo := sc.createdMsec.le_toInt
  have hhi := now.toInt_lt
  have hmax : maxAgeMsec.toInt = 10000 := by decide
  have hzero : (0 : Int64).toInt = 0 := by decide
  simp only [Secret.outOfAge, Bool.or_eq_false_iff, decide_eq_false_iff_not,
    Int64.lt_iff_toInt_lt, Int64.toInt_sub, hmax, hzero, Int.bmod_def]
  split <;> omega

/-- A check that meets the one entry of its secret. -/
theorem checkSecret_singleton (now t : Int64) (s : Bytes) (h : UInt8) :
    checkSecret now s [⟨t, s, h⟩] =
      if Secret.outOfAge now ⟨t, s, h⟩ then (false, [⟨t, s, h⟩])
      else (decide (h + 1 ≤ 2), [⟨t, s, h + 1⟩]) := by
  rw [checkSecret, if_pos rfl]
  split
  · rfl
  · dsimp only
    split
    · next hhit => rw [decide_eq_true hhit]
    · next hhit => rw [decide_eq_false hhit]; rfl

/-! ## a secret over a run -/

/-- How many of `n` hits in a row are accepted when the counter stands at `h`. -/
def acceptedHits : UInt8 → ℕ → ℕ
  | _, 0 => 0
  | h, n + 1 => (decide (h + 1 ≤ 2)).toNat + acceptedHits (h + 1) n

theorem acceptedHits_add (h : UInt8) (m n : ℕ) :
    acceptedHits h (m + n) = acceptedHits h m + acceptedHits (h + UInt8.ofNat m) n := by
  induction m generalizing h with
  | zero => rw [acceptedHits, Nat.zero_add, Nat.zero_add]; simp
  | succ m ih =>
    have hcast : h + 1 + UInt8.ofNat m = h + UInt8.ofNat (m + 1) := by
      rw [UInt8.ofNat_add, UInt8.add_comm (UInt8.ofNat m), UInt8.add_assoc]
      rfl
    rw [Nat.succ_add, acceptedHits, acceptedHits, ih, hcast, Nat.add_assoc]

/-- From the second hit on none is accepted, until the counter wraps. -/
theorem acceptedHits_eq_zero {h : UInt8} {n : ℕ} (hlo : 2 ≤ h.toNat) (hhi : h.toNat + n ≤ 255) :
    acceptedHits h n = 0 := by
  induction n generalizing h with
  | zero => rfl
  | succ n ih =>
    have hnext : (h + 1).toNat = h.toNat + 1 := by
      rw [UInt8.toNat_add, UInt8.toNat_one]
      exact Nat.mod_eq_of_lt (by omega)
    have hrej : ¬ h + 1 ≤ 2 := by
      have htwo : (2 : UInt8).toNat = 2 := rfl
      rw [UInt8.le_iff_toNat_le, hnext, htwo]
      omega
    rw [acceptedHits, decide_eq_false hrej, ih (by omega) (by omega)]
    rfl

/-- A new secret is accepted twice, and once more at its 256th hit. -/
theorem acceptedHits_le_two_iff (n : ℕ) : acceptedHits 0 n ≤ 2 ↔ n ≤ 255 := by
  have hfirst : ∀ m, m ≤ 253 → acceptedHits 0 (2 + m) = 2 := fun m hm => by
    have hrest : acceptedHits 2 m = 0 :=
      acceptedHits_eq_zero (h := 2) le_rfl (by rw [show (2 : UInt8).toNat = 2 from rfl]; omega)
    rw [acceptedHits_add, show (0 : UInt8) + UInt8.ofNat 2 = 2 from rfl, hrest]
    rfl
  constructor
  · intro h
    by_contra hlt
    obtain ⟨k, rfl⟩ : ∃ k, n = 2 + 253 + 1 + k := ⟨n - 256, by omega⟩
    rw [acceptedHits_add, acceptedHits_add, hfirst 253 le_rfl] at h
    have hwrap : acceptedHits (0 + UInt8.ofNat (2 + 253)) 1 = 1 := rfl
    rw [hwrap] at h
    omega
  · intro h
    rcases Nat.lt_or_ge n 2 with hn | hn
    · interval_cases n <;> decide
    · obtain ⟨m, rfl⟩ := Nat.exists_eq_add_of_le hn
      exact (hfirst m (by omega)).le

/-- No entry of a secret that is not made again: none appears and nothing is accepted. -/
theorem acceptCount_of_no_entry {s : Bytes} {l : TunnelSecretList} {calls : List Call}
    (hl : entriesOf s l = []) (hnew : ∀ c ∈ calls, c.made ≠ some s) :
    acceptCount s l calls = 0 ∧ entriesOf s (l.run calls) = [] := by
  induction calls generalizing l with
  | nil => exact ⟨rfl, hl⟩
  | cons c calls ih =>
    obtain ⟨hc, hrest⟩ := List.forall_mem_cons.1 hnew
    have hstep : l.accepts s c = false ∧ entriesOf s (l.step c) = [] := by
      cases c with
      | createSecret now hash =>
        have hne : hash ≠ s := fun h => hc (congrArg some h)
        exact ⟨rfl, by rw [step, entriesOf_createSecret_ne now hne, hl]; rfl⟩
      | checkSecret now s' =>
        by_cases hs : s' = s
        · subst hs
          obtain ⟨hfst, hsnd⟩ := checkSecret_entriesOf now s' l
          rw [hl] at hfst hsnd
          exact ⟨by rw [accepts, hfst, checkSecret, Bool.and_false], hsnd⟩
        · exact ⟨by rw [accepts, beq_false_of_ne hs, Bool.false_and],
            by rw [step, entriesOf_checkSecret_ne now hs, hl]⟩
    obtain ⟨hcount, hrun⟩ := ih hstep.2 hrest
    exact ⟨by rw [acceptCount, hstep.1, hcount]; rfl, hrun⟩

theorem countP_asks_eq_zero {t now : Int64} {s : Bytes} {calls : List Call}
    (hold : ¬ now.toInt - t.toInt ≤ maxAgeMsec.toInt) (hlater : ∀ c ∈ calls, now ≤ c.now) :
    calls.countP (Call.asks t s) = 0 := by
  rw [List.countP_eq_zero]
  intro c hc
  cases c with
  | createSecret now' hash => exact Bool.false_ne_true
  | checkSecret now' s' =>
    have hle := Int64.le_iff_toInt_le.1 (hlater _ hc)
    rw [Call.now] at hle
    rw [Call.asks, Bool.and_eq_true, decide_eq_true_eq]
    exact fun h => hold (by omega)

/-- The one entry of a secret: every check in time is a hit, and the entry stays what it is but
for its counter, or goes. -/
theorem acceptCount_of_entry {s : Bytes} {t : Int64} {h : UInt8} {l : TunnelSecretList}
    {calls : List Call} (hl : entriesOf s l = [⟨t, s, h⟩])
    (hnew : ∀ c ∈ calls, c.made ≠ some s) (hclock : calls.Pairwise fun a b => a.now ≤ b.now)
    (hlater : ∀ c ∈ calls, t ≤ c.now) :
    acceptCount s l calls = acceptedHits h (calls.countP (Call.asks t s)) ∧
      (entriesOf s (l.run calls) = [] ∨ ∃ h', entriesOf s (l.run calls) = [⟨t, s, h'⟩]) := by
  induction calls generalizing l h with
  | nil => exact ⟨rfl, Or.inr ⟨h, hl⟩⟩
  | cons c calls ih =>
    obtain ⟨hc, hnew'⟩ := List.forall_mem_cons.1 hnew
    obtain ⟨hnow, hclock'⟩ := List.pairwise_cons.1 hclock
    obtain ⟨htc, hlater'⟩ := List.forall_mem_cons.1 hlater
    cases c with
    | createSecret now hash =>
      have hne : hash ≠ s := fun heq => hc (congrArg some heq)
      have hstep := entriesOf_createSecret_ne now hne l
      rw [hl, removeOldSecrets] at hstep
      rw [acceptCount, accepts, List.countP_cons_of_neg Bool.false_ne_true, Bool.toNat_false,
        Nat.zero_add]
      by_cases hold : Secret.outOfAge now ⟨t, s, h⟩ = true
      · -- the entry is removed, and no later check is in time
        rw [List.filter_cons_of_neg (by rw [hold]; decide)] at hstep
        have hage : ¬ now.toInt - t.toInt ≤ maxAgeMsec.toInt := fun hle => by
          exact Bool.false_ne_true
            (((outOfAge_eq_false_iff ⟨t, s, h⟩ htc).2 hle).symm.trans hold)
        obtain ⟨hcount, hrun⟩ := acceptCount_of_no_entry hstep hnew'
        rw [countP_asks_eq_zero hage hnow]
        exact ⟨hcount, Or.inl hrun⟩
      · rw [List.filter_cons_of_pos (by simpa using hold)] at hstep
        exact ih hstep hnew' hclock' hlater'
    | checkSecret now s' =>
      by_cases hs : s' = s
      · subst hs
        obtain ⟨hfst, hsnd⟩ := checkSecret_entriesOf now s' l
        rw [hl, checkSecret_singleton] at hfst hsnd
        rw [acceptCount, accepts, beq_self_eq_true, Bool.true_and, hfst]
        have hage := outOfAge_eq_false_iff ⟨t, s', h⟩ htc
        rw [Call.now] at hage
        by_cases hold : Secret.outOfAge now ⟨t, s', h⟩ = true
        · rw [if_pos hold] at hsnd ⊢
          rw [List.countP_cons_of_neg]
          · rw [Bool.toNat_false, Nat.zero_add]
            exact ih hsnd hnew' hclock' hlater'
          · rw [Call.asks, beq_self_eq_true, Bool.true_and, decide_eq_true_eq, ← hage, hold]
            decide
        · rw [if_neg hold] at hsnd ⊢
          rw [List.countP_cons_of_pos]
          · obtain ⟨hcount, hrun⟩ := ih hsnd hnew' hclock' hlater'
            exact ⟨congrArg _ hcount, hrun⟩
          · rw [Call.asks, beq_self_eq_true, Bool.true_and, decide_eq_true_eq, ← hage]
            exact Bool.eq_false_iff.2 hold
      · have hstep := (entriesOf_checkSecret_ne now hs l).trans hl
        rw [acceptCount, accepts, beq_false_of_ne hs, Bool.false_and, Bool.toNat_false,
          Nat.zero_add, List.countP_cons_of_neg]
        · exact ih hstep hnew' hclock' hlater'
        · rw [Call.asks, beq_false_of_ne hs, Bool.false_and]
          exact Bool.false_ne_true

/-! ## whole runs -/

/-- Between the making of a secret and the next one of its text there is none: with secrets that
differ a run falls apart around the one call that makes `s`. -/
theorem made_ne_of_nodup {pre post : List Call} {t : Int64} {s : Bytes}
    (h : ((pre ++ .createSecret t s :: post).filterMap Call.made).Nodup) :
    (∀ c ∈ pre, c.made ≠ some s) ∧ ∀ c ∈ post, c.made ≠ some s := by
  rw [List.filterMap_append, List.filterMap_cons_some (rfl : Call.made _ = some s),
    List.nodup_append] at h
  obtain ⟨-, hpost, hdisj⟩ := h
  refine ⟨fun c hc heq => ?_, fun c hc heq => ?_⟩
  · exact hdisj s (List.mem_filterMap.2 ⟨c, hc, heq⟩) s (List.mem_cons_self ..) rfl
  · exact (List.nodup_cons.1 hpost).1 (List.mem_filterMap.2 ⟨c, hc, heq⟩)

theorem entriesOf_createSecret_self {s : Bytes} {l : TunnelSecretList} (t : Int64)
    (hl : entriesOf s l = []) : entriesOf s (l.createSecret t s) = [⟨t, s, 0⟩] := by
  rw [createSecret, removeOldSecrets, entriesOf, List.filter_append, List.filter_comm]
  rw [entriesOf] at hl
  rw [hl, List.filter_cons_of_pos (by exact beq_self_eq_true s)]
  rfl

/-- In a run a secret is accepted as often as its hits in time allow. -/
theorem acceptCount_run {pre post : List Call} {t : Int64} {s : Bytes}
    (hclock : (pre ++ .createSecret t s :: post).Pairwise fun a b => a.now ≤ b.now)
    (hfresh : ((pre ++ .createSecret t s :: post).filterMap Call.made).Nodup) :
    acceptCount s [] (pre ++ .createSecret t s :: post) =
      acceptedHits 0 (post.countP (Call.asks t s)) := by
  obtain ⟨hpre, hpost⟩ := made_ne_of_nodup hfresh
  obtain ⟨hcount, hrun⟩ := acceptCount_of_no_entry (s := s) (l := []) rfl hpre
  have hentry := entriesOf_createSecret_self t hrun
  obtain ⟨-, hcons, -⟩ := List.pairwise_append.1 hclock
  obtain ⟨hnow, hpost'⟩ := List.pairwise_cons.1 hcons
  rw [acceptCount_append, hcount, acceptCount, accepts, Bool.toNat_false, Nat.zero_add,
    Nat.zero_add]
  exact (acceptCount_of_entry hentry hpost hpost' hnow).1

/-- What a check accepts was made before it, and no more than ten seconds before. -/
theorem made_of_accepted {pre post : List Call} {now : Int64} {s : Bytes}
    (hclock : (pre ++ .checkSecret now s :: post).Pairwise fun a b => a.now ≤ b.now)
    (hfresh : ((pre ++ .checkSecret now s :: post).filterMap Call.made).Nodup)
    (h : ((run [] pre).checkSecret now s).1 = true) :
    ∃ t, Call.createSecret t s ∈ pre ∧ t ≤ now ∧ now.toInt - t.toInt ≤ 10000 := by
  rw [(checkSecret_entriesOf now s (run [] pre)).1] at h
  by_cases hmade : ∀ c ∈ pre, c.made ≠ some s
  · rw [(acceptCount_of_no_entry (l := []) rfl hmade).2] at h
    exact absurd h Bool.false_ne_true
  · simp only [not_forall, not_not] at hmade
    obtain ⟨c, hc, heq⟩ := hmade
    cases c with
    | checkSecret now' s' => cases heq
    | createSecret t hash =>
      obtain rfl : hash = s := Option.some.inj heq
      obtain ⟨hpre, -, hle⟩ := List.pairwise_append.1 hclock
      obtain ⟨p, q, rfl⟩ := List.append_of_mem hc
      rw [List.filterMap_append, List.nodup_append] at hfresh
      obtain ⟨hp, hq⟩ := made_ne_of_nodup hfresh.1
      have hentry := entriesOf_createSecret_self t
        (acceptCount_of_no_entry (l := []) rfl hp).2
      obtain ⟨hnow, hq'⟩ := List.pairwise_cons.1 (List.pairwise_append.1 hpre).2.1
      have hrun := (acceptCount_of_entry hentry hq hq' hnow).2
      have hsplit : run [] (p ++ .createSecret t hash :: q) =
          run ((run [] p).createSecret t hash) q := List.foldl_append ..
      have htn : t ≤ now := hle _ hc _ (List.mem_cons_self ..)
      refine ⟨t, hc, htn, ?_⟩
      rw [hsplit] at h
      rcases hrun with hnil | ⟨h', hone⟩
      · rw [hnil] at h
        exact absurd h Bool.false_ne_true
      · rw [hone, checkSecret_singleton] at h
        by_cases hold : Secret.outOfAge now ⟨t, hash, h'⟩ = true
        · rw [if_pos hold] at h
          exact absurd h Bool.false_ne_true
        · exact (outOfAge_eq_false_iff ⟨t, hash, h'⟩ htn).1 (Bool.eq_false_iff.2 hold)

/-- Every text a check accepts was made at most ten seconds before; and no secret is accepted more
than twice exactly if none is asked for more than 255 times in its ten seconds: the counter of its
hits is a byte. -/
theorem secrets_wear_out_iff (calls : List Call)
    (hclock : calls.Pairwise fun a b => a.now ≤ b.now)
    (hfresh : (calls.filterMap Call.made).Nodup) :
    ((∀ pre now s post, calls = pre ++ .checkSecret now s :: post →
        ((run [] pre).checkSecret now s).1 = true →
        ∃ t, Call.createSecret t s ∈ pre ∧ t ≤ now ∧ now.toInt - t.toInt ≤ 10000) ∧
      ∀ s, acceptCount s [] calls ≤ 2) ↔
    ∀ pre t s post, calls = pre ++ .createSecret t s :: post →
      post.countP (Call.asks t s) ≤ 255 := by
  constructor
  · rintro ⟨-, htwice⟩ pre t s post rfl
    have h := htwice s
    rw [acceptCount_run hclock hfresh] at h
    exact (acceptedHits_le_two_iff _).1 h
  · intro hworn
    refine ⟨?_, fun s => ?_⟩
    · rintro pre now s post rfl
      exact made_of_accepted hclock hfresh
    · by_cases hmade : ∀ c ∈ calls, c.made ≠ some s
      · rw [(acceptCount_of_no_entry (l := []) rfl hmade).1]
        exact Nat.zero_le 2
      · simp only [not_forall, not_not] at hmade
        obtain ⟨c, hc, heq⟩ := hmade
        cases c with
        | checkSecret now' s' => cases heq
        | createSecret t hash =>
          obtain rfl : hash = s := Option.some.inj heq
          obtain ⟨pre, post, rfl⟩ := List.append_of_mem hc
          rw [acceptCount_run hclock hfresh]
          exact (acceptedHits_le_two_iff _).2 (hworn pre t hash post rfl)

theorem secrets_wear_out_iff_one_check :
    acceptCount [97] [] [.createSecret 0 [97], .checkSecret 5 [97]] ≤ 2 := by
  refine ((secrets_wear_out_iff [.createSecret 0 [97], .checkSecret 5 [97]] (by decide)
    (by decide)).2 fun pre t s post h => ?_).2 [97]
  have hlen := congrArg List.length h
  simp only [List.length_cons, List.length_nil, List.length_append] at hlen
  exact (List.countP_le_length (p := Call.asks t s) (l := post)).trans (by omega)

/-- The 256th check of a secret within its ten seconds is its third that is accepted. -/
theorem accepted_three_times :
    ((Call.createSecret 0 [97] :: List.replicate 256 (Call.checkSecret 0 [97])).Pairwise
        fun a b => a.now ≤ b.now) ∧
      ((Call.createSecret 0 [97] :: List.replicate 256 (Call.checkSecret 0 [97])).filterMap
        Call.made).Nodup ∧
      ¬ acceptCount [97] []
        (Call.createSecret 0 [97] :: List.replicate 256 (Call.checkSecret 0 [97])) ≤ 2 := by
  have hclock : (Call.createSecret 0 [97] :: List.replicate 256 (Call.checkSecret 0 [97])).Pairwise
      fun a b => a.now ≤ b.now := by
    refine List.pairwise_cons.2 ⟨fun c hc => ?_, List.pairwise_replicate.2
      (Or.inr (Int64.le_refl _))⟩
    rw [List.eq_of_mem_replicate hc]
    exact Int64.le_refl _
  have hfresh : ((Call.createSecret 0 [97] :: List.replicate 256
      (Call.checkSecret 0 [97])).filterMap Call.made).Nodup := by
    rw [List.filterMap_cons_some (rfl : Call.made _ = some [97]), List.filterMap_replicate_of_none
      (rfl : Call.made (Call.checkSecret 0 [97]) = none)]
    exact List.nodup_singleton _
  refine ⟨hclock, hfresh, ?_⟩
  rw [show (Call.createSecret 0 [97] :: List.replicate 256 (Call.checkSecret 0 [97])) =
    [] ++ Call.createSecret 0 [97] :: List.replicate 256 (Call.checkSecret 0 [97]) from rfl,
    acceptCount_run hclock hfresh, List.countP_replicate, acceptedHits_le_two_iff]
  decide

end TunnelSecretList

end LibShv
