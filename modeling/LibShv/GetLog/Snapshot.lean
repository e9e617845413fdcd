import LibShv.ShvJournalEntry
import LibShv.Lib.Replay

/-!
# LibShv.GetLog.Snapshot

What a snapshot holds after a span of entries has been added to it: under every
path the last value that came up, unless the path or one above it was dropped later.
-/

namespace LibShv

open Replay

/-! ## directories -/

/-- The path is the directory or below it. -/
def Covers (dir path : Bytes) : Prop := path = dir ∨ ∃ rest, path = dir ++ 0x2f :: rest

/-- The test of `forEachDirAndSubdirsDeleteIf` on a key that starts with the directory. -/
theorem covers_append (dir t : Bytes) :
    Covers dir (dir ++ t) ↔ (dir ++ t).length = dir.length ∨ (dir ++ t)[dir.length]? = some 0x2f := by
  rw [Covers, List.length_append, List.getElem?_append_right (Nat.le_refl _), Nat.sub_self]
  cases t with
  | nil => simp
  | cons b t => simp

theorem Covers.isPrefix {dir path : Bytes} (h : Covers dir path) : dir <+: path := by
  rcases h with rfl | ⟨rest, rfl⟩
  · exact List.prefix_rfl
  · exact List.prefix_append _ _

theorem compare_cons_cons (a b : UInt8) (s t : Bytes) :
    compare (a :: s) (b :: t) = (compare a b).then (compare s t) :=
  List.compareLex_cons_cons

/-- What starts with the directory is not before it. -/
theorem not_lt_of_isPrefix {dir path : Bytes} (h : dir <+: path) : compare path dir ≠ .lt := by
  obtain ⟨t, rfl⟩ := h
  induction dir with
  | nil => cases t <;> nofun
  | cons d dir ih =>
    rw [List.cons_append, compare_cons_cons, Std.LawfulEqOrd.compare_eq_iff_eq.mpr rfl]
    exact ih

/-- The keys that start with the directory are together, from the first that is not before it. -/
theorem isPrefix_of_between {dir k k' : Bytes} (hdir : compare k dir ≠ .lt)
    (hk : compare k k' = .lt) (h : dir <+: k') : dir <+: k := by
  obtain ⟨t, rfl⟩ := h
  induction dir generalizing k with
  | nil => exact List.nil_prefix
  | cons d dir ih =>
    cases k with
    | nil => exact absurd rfl hdir
    | cons a k =>
      rw [compare_cons_cons] at hdir
      rw [List.cons_append, compare_cons_cons] at hk
      have had : a = d := by
        cases hcmp : compare a d with
        | eq => exact Std.LawfulEqOrd.eq_of_compare hcmp
        | lt =>
          rw [hcmp] at hdir
          exact absurd rfl hdir
        | gt =>
          rw [hcmp] at hk
          contradiction
      subst had
      rw [Std.LawfulEqOrd.compare_eq_iff_eq.mpr rfl] at hdir hk
      exact (List.cons_prefix_cons.mpr ⟨rfl, ih hdir hk⟩)

namespace ShvSnapshot

/-- A sorted snapshot from the first key that is not before the directory. -/
theorem mem_deleteFrom {dir : Bytes} {m : ShvSnapshot} (hsorted : SortedMap.Sorted m)
    (hdir : ∀ kv ∈ m, compare kv.1 dir ≠ .lt) (kv : Bytes × ShvJournalEntry) :
    kv ∈ deleteFrom dir m ↔ kv ∈ m ∧ ¬Covers dir kv.1 := by
  induction m with
  | nil => simp [deleteFrom]
  | cons x m ih =>
    obtain ⟨key, e⟩ := x
    have hlt := (SortedMap.sorted_cons.mp hsorted).1
    have ih' := ih hsorted.tail fun kv hkv => hdir kv (List.mem_cons_of_mem _ hkv)
    rw [deleteFrom]
    by_cases hpre : dir.isPrefixOf key = true
    · rw [if_pos hpre]
      obtain ⟨t, rfl⟩ := List.isPrefixOf_iff_prefix.mp hpre
      by_cases hcov : Covers dir (dir ++ t)
      · rw [if_pos ((covers_append dir t).mp hcov), ih', List.mem_cons]
        refine ⟨fun h => ⟨.inr h.1, h.2⟩, ?_⟩
        rintro ⟨rfl | hmem, hnot⟩
        · exact absurd hcov hnot
        · exact ⟨hmem, hnot⟩
      · rw [if_neg (mt (covers_append dir t).mpr hcov), List.mem_cons, ih', List.mem_cons]
        constructor
        · rintro (rfl | h)
          · exact ⟨.inl rfl, hcov⟩
          · exact ⟨.inr h.1, h.2⟩
        · rintro ⟨rfl | hmem, hnot⟩
          · exact .inl rfl
          · exact .inr ⟨hmem, hnot⟩
    · -- no key after this one starts with the directory
      rw [if_neg hpre]
      refine (and_iff_left_of_imp fun hmem hcov => hpre ?_).symm
      rw [List.isPrefixOf_iff_prefix]
      rcases List.mem_cons.mp hmem with rfl | hmem
      · exact hcov.isPrefix
      · exact isPrefix_of_between (hdir _ List.mem_cons_self) (hlt kv hmem) hcov.isPrefix

/-- What is left is not in the directory. -/
theorem mem_deleteDirAndSubdirs {dir : Bytes} {m : ShvSnapshot} (hsorted : SortedMap.Sorted m)
    (kv : Bytes × ShvJournalEntry) :
    kv ∈ m.deleteDirAndSubdirs dir ↔ kv ∈ m ∧ ¬Covers dir kv.1 := by
  induction m with
  | nil => simp [deleteDirAndSubdirs]
  | cons x m ih =>
    obtain ⟨key, e⟩ := x
    have hlt := (SortedMap.sorted_cons.mp hsorted).1
    rw [deleteDirAndSubdirs]
    by_cases hkey : compare key dir = .lt
    · rw [if_pos hkey, List.mem_cons, ih hsorted.tail, List.mem_cons]
      constructor
      · rintro (rfl | h)
        · exact ⟨.inl rfl, fun hcov => not_lt_of_isPrefix hcov.isPrefix hkey⟩
        · exact ⟨.inr h.1, h.2⟩
      · rintro ⟨rfl | hmem, hnot⟩
        · exact .inl rfl
        · exact .inr ⟨hmem, hnot⟩
    · rw [if_neg hkey]
      refine mem_deleteFrom hsorted (fun kv hkv hlt' => ?_) kv
      rcases List.mem_cons.mp hkv with rfl | hkv
      · exact hkey hlt'
      · exact hkey (Std.TransCmp.lt_trans (hlt kv hkv) hlt')

theorem deleteFrom_sublist (dir : Bytes) (m : ShvSnapshot) :
    (deleteFrom dir m).Sublist m := by
  induction m with
  | nil => exact List.Sublist.refl _
  | cons x m ih =>
    rw [deleteFrom]
    split
    · split
      · exact ih.cons _
      · exact ih.cons_cons _
    · exact List.Sublist.refl _

theorem deleteDirAndSubdirs_sublist (dir : Bytes) (m : ShvSnapshot) :
    (m.deleteDirAndSubdirs dir).Sublist m := by
  induction m with
  | nil => exact List.Sublist.refl _
  | cons x m ih =>
    rw [deleteDirAndSubdirs]
    split
    · exact ih.cons_cons _
    · exact deleteFrom_sublist dir _

end ShvSnapshot

/-! ## entries -/

/-- The entry drops a node. -/
def ShvJournalEntry.IsDrop (e : ShvJournalEntry) : Prop :=
  e.domain = ShvJournalEntry.DOMAIN_VAL_CHANGE ∧ e.value.isNodeDrop = .ok true

/-- The entry is a change of a value, and no drop. -/
def ShvJournalEntry.IsValueChange (e : ShvJournalEntry) : Prop :=
  e.domain = ShvJournalEntry.DOMAIN_VAL_CHANGE ∧ e.value.isNodeDrop = .ok false

namespace ShvSnapshot

/-- The entry puts a value under its path. -/
def Puts (e : ShvJournalEntry) (kv : Bytes × ShvJournalEntry) : Prop :=
  e.IsValueChange ∧ kv = (e.path, e)

/-- The entry replaces the value of its path, or drops the paths below it. -/
def Removes (e : ShvJournalEntry) (kv : Bytes × ShvJournalEntry) : Prop :=
  e.IsValueChange ∧ kv.1 = e.path ∨ e.IsDrop ∧ Covers e.path kv.1

end ShvSnapshot

open ShvSnapshot

/-- The branches of `addToSnapshot`. -/
theorem addToSnapshot_cases {snapshot snapshot' : ShvSnapshot} {e : ShvJournalEntry}
    (h : addToSnapshot snapshot e = .ok snapshot') :
    e.domain ≠ ShvJournalEntry.DOMAIN_VAL_CHANGE ∧ snapshot' = snapshot ∨
      e.IsDrop ∧ snapshot' = snapshot.deleteDirAndSubdirs e.path ∨
      e.IsValueChange ∧ snapshot' = SortedMap.insert e.path e snapshot := by
  rw [addToSnapshot] at h
  by_cases hdom : e.domain ≠ ShvJournalEntry.DOMAIN_VAL_CHANGE
  · rw [if_pos hdom] at h
    exact .inl ⟨hdom, (Except.ok.inj h).symm⟩
  · rw [if_neg hdom] at h
    have hdom := Decidable.not_not.mp hdom
    cases hd : e.value.isNodeDrop with
    | error err => simp [hd, bind, Except.bind] at h
    | ok drop =>
      simp only [hd, bind, Except.bind, pure, Except.pure] at h
      cases drop with
      | true => exact .inr (.inl ⟨⟨hdom, hd⟩, (Except.ok.inj h).symm⟩)
      | false => exact .inr (.inr ⟨⟨hdom, hd⟩, (Except.ok.inj h).symm⟩)

theorem ShvJournalEntry.IsDrop.not_isValueChange {e : ShvJournalEntry} (h : e.IsDrop) :
    ¬e.IsValueChange := by
  rintro ⟨-, hval⟩
  rw [h.2] at hval
  simp at hval

/-- A snapshot is a replay of its entries. -/
theorem replays_addToSnapshot :
    Replays SortedMap.Sorted (fun m kv => kv ∈ m) Puts Removes addToSnapshot where
  inv := by
    intro s e s' hs h
    rcases addToSnapshot_cases h with ⟨-, rfl⟩ | ⟨-, rfl⟩ | ⟨-, rfl⟩
    · exact hs
    · exact List.Pairwise.sublist (deleteDirAndSubdirs_sublist _ _) hs
    · exact SortedMap.sorted_insert hs
  mem_iff := by
    intro s e s' hs h kv
    rcases addToSnapshot_cases h with ⟨hdom, rfl⟩ | ⟨hdrop, rfl⟩ | ⟨hval, rfl⟩
    · have hput : ¬Puts e kv := fun hp => hdom hp.1.1
      have hkeep : ¬Removes e kv := fun hr => hdom (hr.elim (·.1.1) (·.1.1))
      exact ⟨fun hmem => .inr ⟨hmem, hkeep⟩, fun hor => (hor.resolve_left hput).1⟩
    · have hput : ¬Puts e kv := fun hp => hdrop.not_isValueChange hp.1
      have hkeep : ¬Removes e kv ↔ ¬Covers e.path kv.1 :=
        not_congr ⟨fun hr => (hr.resolve_left fun hv => hdrop.not_isValueChange hv.1).2,
          fun hc => .inr ⟨hdrop, hc⟩⟩
      rw [mem_deleteDirAndSubdirs hs, hkeep]
      exact ⟨.inr, fun hor => hor.resolve_left hput⟩
    · have hput : Puts e kv ↔ kv = (e.path, e) := and_iff_right hval
      have hkeep : ¬Removes e kv ↔ kv.1 ≠ e.path :=
        not_congr ⟨fun hr => (hr.resolve_right fun hd => hd.1.not_isValueChange hval).2,
          fun hp => .inl ⟨hval, hp⟩⟩
      rw [SortedMap.mem_insert_iff hs, hput, hkeep]

/-! ## spans -/

/-- The entry is the last value of a path in the span: it is a change of a value, and no later
entry of the span changes it or drops the path. -/
def IsLastValue (span : List ShvJournalEntry) (path : Bytes) (e : ShvJournalEntry) : Prop :=
  ∃ earlier later, span = earlier ++ e :: later ∧ e.path = path ∧ e.IsValueChange ∧
    ∀ d ∈ later, ¬(d.IsValueChange ∧ d.path = path) ∧ ¬(d.IsDrop ∧ Covers d.path path)

theorem survives_iff {span : List ShvJournalEntry} {kv : Bytes × ShvJournalEntry} :
    Survives Puts Removes span kv ↔ IsLastValue span kv.1 kv.2 := by
  have hlater : ∀ d : ShvJournalEntry, ¬Removes d kv ↔
      ¬(d.IsValueChange ∧ d.path = kv.1) ∧ ¬(d.IsDrop ∧ Covers d.path kv.1) := by
    intro d
    rw [Removes, not_or, eq_comm]
  constructor
  · rintro ⟨earlier, e, later, rfl, ⟨hval, rfl⟩, hkept⟩
    exact ⟨earlier, later, rfl, rfl, hval, fun d hd => (hlater d).mp (hkept d hd)⟩
  · rintro ⟨earlier, later, rfl, hpath, hval, hkept⟩
    exact ⟨earlier, kv.2, later, rfl, ⟨hval, by rw [hpath]⟩,
      fun d hd => (hlater d).mpr (hkept d hd)⟩

/-- The snapshot of a span holds the last value of every path. -/
theorem snapshot_of_span {span : List ShvJournalEntry} {snapshot : ShvSnapshot}
    (h : span.foldlM addToSnapshot [] = .ok snapshot) :
    SortedMap.Sorted snapshot ∧ ∀ path e, (path, e) ∈ snapshot ↔ IsLastValue span path e := by
  obtain ⟨hsorted, hmem⟩ := replays_addToSnapshot.foldlM SortedMap.sorted_nil nofun h
  exact ⟨hsorted, fun path e => (hmem (path, e)).trans survives_iff⟩

end LibShv
