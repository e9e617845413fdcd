import LibShv.RpcMessage

/-!
# LibShv.AccessGrant

Access levels and grants (`accesslevel.cpp`, `accessgrant.cpp`) and how a grant
is kept in the metadata of a message: the level as a number, and a legacy string
in which the short name of the level stands before the role names.
-/

namespace LibShv

/-! ## access levels -/

/-- `AccessLevel`, an enumeration over `int`. -/
structure AccessLevel where
  toInt : Int32
deriving DecidableEq

namespace AccessLevel

def None : AccessLevel := ⟨0⟩
def Browse : AccessLevel := ⟨1⟩
def Read : AccessLevel := ⟨8⟩
def Write : AccessLevel := ⟨16⟩
def Command : AccessLevel := ⟨24⟩
def Config : AccessLevel := ⟨32⟩
def Service : AccessLevel := ⟨40⟩
def SuperService : AccessLevel := ⟨48⟩
def Devel : AccessLevel := ⟨56⟩
def Admin : AccessLevel := ⟨63⟩

end AccessLevel

/-- The levels that have a short name, and the names. -/
def accessStrings : List (AccessLevel × Bytes) :=
  [(.Browse, ascii "bws"), (.Read, ascii "rd"), (.Write, ascii "wr"), (.Command, ascii "cmd"),
    (.Config, ascii "cfg"), (.Service, ascii "srv"), (.SuperService, ascii "ssrv"),
    (.Devel, ascii "dev"), (.Admin, ascii "su")]

/-- `accessLevelToAccessString`: the empty string for every other level. -/
def accessLevelToAccessString (level : AccessLevel) : Bytes :=
  match accessStrings.find? (·.1 = level) with
  | some e => e.2
  | none => []

/-- `accessLevelFromAccessString`. -/
def accessLevelFromAccessString (s : Bytes) : Option AccessLevel :=
  (accessStrings.find? (·.2 = s)).map (·.1)

/-- `accessLevelFromInt`: the enumerators have the values from 0 to 63. -/
def accessLevelFromInt (i : Int32) : Option AccessLevel :=
  if 0 ≤ i ∧ i ≤ 63 then some ⟨i⟩ else none

/-! ## pieces between commas -/

def comma : UInt8 := 0x2c

/-- The pieces of a string between its commas. -/
def splitComma : Bytes → List Bytes
  | [] => [[]]
  | b :: bs =>
    if b = comma then [] :: splitComma bs
    else
      match splitComma bs with
      | piece :: pieces => (b :: piece) :: pieces
      | [] => [[b]]

/-! ## grants -/

/-- `AccessGrant`: a level, and role names separated by commas. -/
structure AccessGrant where
  accessLevel : AccessLevel
  access : Bytes
deriving DecidableEq

namespace AccessGrant

/-- A grant of nothing. -/
def none : AccessGrant := ⟨.None, []⟩

/-- One round of the loop of `fromShv2Access`: the name of a level raises the
level, another name is a role. -/
def addPiece (ret : AccessGrant) (levelStr : Bytes) : AccessGrant :=
  if levelStr = [] then ret
  else
    match accessLevelFromAccessString levelStr with
    | some level =>
      if ret.accessLevel.toInt < level.toInt then { ret with accessLevel := level } else ret
    | Option.none =>
      { ret with access := if ret.access = [] then levelStr else ret.access ++ comma :: levelStr }

/-- `AccessGrant::fromShv2Access`. -/
def fromShv2Access (shv2Access : Bytes) (accessLevel : Int32) : AccessGrant :=
  (splitComma shv2Access).foldl addPiece ⟨(accessLevelFromInt accessLevel).getD .None, []⟩

/-- `AccessGrant::toShv2Access`: empty if the level has no short name. -/
def toShv2Access (ag : AccessGrant) : Bytes :=
  let levelStr := accessLevelToAccessString ag.accessLevel
  if levelStr = [] then []
  else if ag.access = [] then levelStr
  else levelStr ++ comma :: ag.access

end AccessGrant

/-! ## grants in metadata -/

def Tag_Access : Int32 := 14
def Tag_AccessLevel : Int32 := 17

namespace RpcMetaData

/-- `RpcMessage::access`. -/
def access (md : RpcMetaData) : Bytes := (md.valueOf Tag_Access).asString

/-- `RpcMessage::setAccess`. -/
def setAccess (md : RpcMetaData) (access : Bytes) : RpcMetaData :=
  md.setIValue Tag_Access (if access = [] then .invalid else .ofVariant (.string access))

/-- `RpcMessage::accessLevel`. -/
def accessLevel (md : RpcMetaData) : Except String Int32 := (md.valueOf Tag_AccessLevel).toInt

/-- `RpcMessage::setAccessLevel`. -/
def setAccessLevel (md : RpcMetaData) (level : AccessLevel) : RpcMetaData :=
  md.setIValue Tag_AccessLevel (if level = .None then .invalid else .ofInt32 level.toInt)

/-- `RpcMessage::accessGrant`. -/
def accessGrant (md : RpcMetaData) : Except String AccessGrant := do
  return .fromShv2Access md.access (← md.accessLevel)

/-- `RpcMessage::setAccessGrant`. -/
def setAccessGrant (md : RpcMetaData) (ag : AccessGrant) : RpcMetaData :=
  (md.setAccessLevel ag.accessLevel).setAccess ag.toShv2Access

end RpcMetaData

/-! ## names and pieces -/

theorem accessLevelFromAccessString_toAccessString {level : AccessLevel}
    (h : accessLevelToAccessString level ≠ []) :
    accessLevelFromAccessString (accessLevelToAccessString level) = some level := by
  have hall : ∀ e ∈ accessStrings, accessLevelFromAccessString e.2 = some e.1 := by decide
  rw [accessLevelToAccessString] at h ⊢
  cases he : accessStrings.find? (·.1 = level) with
  | none => rw [he] at h; contradiction
  | some e =>
    have hlevel : e.1 = level := by simpa using List.find?_some he
    rw [← hlevel]
    exact hall e (List.mem_of_find?_eq_some he)

/-- No short name has a comma in it. -/
theorem comma_not_mem_accessLevelToAccessString (level : AccessLevel) :
    comma ∉ accessLevelToAccessString level := by
  have hall : ∀ e ∈ accessStrings, comma ∉ e.2 := by decide
  rw [accessLevelToAccessString]
  cases he : accessStrings.find? (·.1 = level) with
  | none => simp
  | some e => exact hall e (List.mem_of_find?_eq_some he)

/-- A named level is one of the enumerators. -/
theorem accessLevelFromInt_of_named {level : AccessLevel}
    (h : accessLevelToAccessString level ≠ []) : accessLevelFromInt level.toInt = some level := by
  have hall : ∀ e ∈ accessStrings, accessLevelFromInt e.1.toInt = some e.1 := by decide
  rw [accessLevelToAccessString] at h
  cases he : accessStrings.find? (·.1 = level) with
  | none => rw [he] at h; contradiction
  | some e =>
    have hlevel : e.1 = level := by simpa using List.find?_some he
    rw [← hlevel]
    exact hall e (List.mem_of_find?_eq_some he)

theorem splitComma_ne_nil (s : Bytes) : splitComma s ≠ [] := by
  induction s with
  | nil => simp [splitComma]
  | cons b s ih =>
    rw [splitComma]
    by_cases h : b = comma
    · rw [if_pos h]
      exact List.cons_ne_nil _ _
    · rw [if_neg h]
      split <;> simp

theorem splitComma_append {s : Bytes} (h : comma ∉ s) (t : Bytes) :
    splitComma (s ++ comma :: t) = s :: splitComma t := by
  induction s with
  | nil => rw [List.nil_append, splitComma, if_pos rfl]
  | cons b s ih =>
    obtain ⟨hb, hs⟩ := not_or.mp (mt List.mem_cons.mpr h)
    rw [List.cons_append, splitComma, if_neg (Ne.symm hb), ih hs]

theorem splitComma_of_not_mem {s : Bytes} (h : comma ∉ s) : splitComma s = [s] := by
  induction s with
  | nil => rfl
  | cons b s ih =>
    obtain ⟨hb, hs⟩ := not_or.mp (mt List.mem_cons.mpr h)
    rw [splitComma, if_neg (Ne.symm hb), ih hs]

/-- Every piece with a comma before it. -/
def commaBefore (pieces : List Bytes) : Bytes := (pieces.map (comma :: ·)).flatten

theorem commaBefore_splitComma (s : Bytes) : commaBefore (splitComma s) = comma :: s := by
  induction s with
  | nil => rfl
  | cons b s ih =>
    rw [splitComma]
    by_cases h : b = comma
    · rw [if_pos h, h, ← ih]
      rfl
    · rw [if_neg h]
      cases hs : splitComma s with
      | nil => exact absurd hs (splitComma_ne_nil s)
      | cons p ps =>
        rw [hs] at ih
        have ih : p ++ commaBefore ps = s := by simpa [commaBefore] using ih
        simp only [commaBefore, List.map_cons, List.flatten_cons, List.cons_append]
        rw [← commaBefore, ih]

/-- Dropping a piece makes the string shorter. -/
theorem length_commaBefore_filter {keep : Bytes → Bool} {pieces : List Bytes} :
    (commaBefore (pieces.filter keep)).length ≤ (commaBefore pieces).length ∧
      ((commaBefore (pieces.filter keep)).length = (commaBefore pieces).length →
        ∀ p ∈ pieces, keep p = true) := by
  induction pieces with
  | nil => simp
  | cons p ps ih =>
    have hlen : (commaBefore (p :: ps)).length = p.length + 1 + (commaBefore ps).length := by
      simp [commaBefore]
      omega
    by_cases hp : keep p = true
    · have hlen' : (commaBefore (p :: ps.filter keep)).length =
          p.length + 1 + (commaBefore (ps.filter keep)).length := by
        simp [commaBefore]
        omega
      rw [List.filter_cons_of_pos hp, hlen, hlen']
      refine ⟨by omega, fun h q hq => ?_⟩
      rcases List.mem_cons.mp hq with rfl | hq
      · exact hp
      · exact ih.2 (by omega) q hq
    · rw [List.filter_cons_of_neg hp, hlen]
      exact ⟨by omega, fun h => absurd h (by omega)⟩

/-! ## reading the pieces back -/

namespace AccessGrant

/-- A piece that is read as a role. -/
def IsRole (piece : Bytes) : Prop := piece ≠ [] ∧ accessLevelFromAccessString piece = Option.none

instance (piece : Bytes) : Decidable (IsRole piece) := inferInstanceAs (Decidable (_ ∧ _))

theorem addPiece_of_isRole (ag : AccessGrant) {piece : Bytes} (h : IsRole piece) :
    ag.addPiece piece =
      { ag with access := if ag.access = [] then piece else ag.access ++ comma :: piece } := by
  rw [addPiece, if_neg h.1, h.2]

/-- Every other piece adds no role. -/
theorem access_addPiece_of_not_isRole (ag : AccessGrant) {piece : Bytes}
    (h : ¬ IsRole piece) :
    (ag.addPiece piece).access = ag.access := by
  rw [addPiece]
  by_cases hp : piece = []
  · rw [if_pos hp]
  · rw [if_neg hp]
    cases hl : accessLevelFromAccessString piece with
    | none => exact absurd ⟨hp, hl⟩ h
    | some level =>
      by_cases hlt : ag.accessLevel.toInt < level.toInt
      · simp only [if_pos hlt]
      · simp only [if_neg hlt]

/-- The roles read behind a role. -/
theorem access_foldl_of_ne (pieces : List Bytes) (ag : AccessGrant) (h : ag.access ≠ []) :
    (pieces.foldl addPiece ag).access = ag.access ++ commaBefore (pieces.filter (IsRole ·)) := by
  induction pieces generalizing ag with
  | nil => exact (List.append_nil _).symm
  | cons p ps ih =>
    rw [List.foldl_cons]
    by_cases hp : IsRole p
    · have hadd := addPiece_of_isRole ag hp
      rw [if_neg h] at hadd
      rw [ih _ (by rw [hadd]; simp), hadd, List.filter_cons_of_pos (by simpa using hp)]
      simp [commaBefore]
    · have hadd := access_addPiece_of_not_isRole ag hp
      rw [ih _ (by rw [hadd]; exact h), hadd, List.filter_cons_of_neg (by simpa using hp)]

/-- The roles read, from the first one on. -/
theorem access_foldl (pieces : List Bytes) (ag : AccessGrant) (h : ag.access = []) :
    (pieces.foldl addPiece ag).access = (commaBefore (pieces.filter (IsRole ·))).tail := by
  induction pieces generalizing ag with
  | nil => exact h
  | cons p ps ih =>
    rw [List.foldl_cons]
    by_cases hp : IsRole p
    · have hadd := addPiece_of_isRole ag hp
      rw [if_pos h] at hadd
      rw [access_foldl_of_ne _ _ (by rw [hadd]; exact hp.1), hadd,
        List.filter_cons_of_pos (by simpa using hp)]
      simp [commaBefore]
    · have hadd := access_addPiece_of_not_isRole ag hp
      rw [ih _ (by rw [hadd, h]), List.filter_cons_of_neg (by simpa using hp)]

theorem accessLevel_foldl {pieces : List Bytes} (h : ∀ p ∈ pieces, IsRole p) (ag : AccessGrant) :
    (pieces.foldl addPiece ag).accessLevel = ag.accessLevel := by
  induction pieces generalizing ag with
  | nil => rfl
  | cons p ps ih =>
    rw [List.foldl_cons, ih (fun q hq => h q (List.mem_cons_of_mem _ hq)),
      addPiece_of_isRole ag (h p List.mem_cons_self)]

/-- The roles come back exactly if every piece is read as one. -/
theorem foldl_splitComma_eq_iff {access : Bytes} (hne : access ≠ []) (level : AccessLevel) :
    (splitComma access).foldl addPiece ⟨level, []⟩ = ⟨level, access⟩ ↔
      ∀ p ∈ splitComma access, IsRole p := by
  have hacc := access_foldl (splitComma access) ⟨level, []⟩ rfl
  have hwhole := commaBefore_splitComma access
  constructor
  · intro h
    rw [h] at hacc
    have hlen := congrArg List.length hacc
    have hpos := List.length_pos_iff.mpr hne
    have hall := (@length_commaBefore_filter (fun p => decide (IsRole p)) (splitComma access)).2
    simp only [List.length_tail] at hlen
    rw [hwhole, List.length_cons] at hall
    exact fun p hp => of_decide_eq_true (hall (by omega) p hp)
  · intro h
    have hfilter : (splitComma access).filter (fun p => decide (IsRole p)) = splitComma access :=
      List.filter_eq_self.mpr fun p hp => decide_eq_true (h p hp)
    rw [hfilter, hwhole, List.tail_cons] at hacc
    have hlevel := accessLevel_foldl h ⟨level, []⟩
    generalize (splitComma access).foldl addPiece ⟨level, []⟩ = ag at hacc hlevel
    obtain ⟨l, a⟩ := ag
    simp only at hacc hlevel
    rw [hacc, hlevel]

/-- No piece has a comma in it. -/
theorem comma_not_mem_of_mem_splitComma {s piece : Bytes} (h : piece ∈ splitComma s) :
    comma ∉ piece := by
  induction s generalizing piece with
  | nil =>
    rw [splitComma, List.mem_singleton] at h
    rw [h]
    exact List.not_mem_nil
  | cons b s ih =>
    rw [splitComma] at h
    by_cases hb : b = comma
    · rw [if_pos hb] at h
      rcases List.mem_cons.mp h with rfl | h
      · exact List.not_mem_nil
      · exact ih h
    · rw [if_neg hb] at h
      cases hs : splitComma s with
      | nil => exact absurd hs (splitComma_ne_nil s)
      | cons p ps =>
        rw [hs] at h ih
        rcases List.mem_cons.mp h with rfl | h
        · exact fun hm => (List.mem_cons.mp hm).elim (fun hc => hb hc.symm) (ih List.mem_cons_self)
        · exact ih (List.mem_cons_of_mem _ h)

theorem splitComma_append_comma (s t : Bytes) :
    splitComma (s ++ comma :: t) = splitComma s ++ splitComma t := by
  induction s with
  | nil => simp [splitComma]
  | cons b s ih =>
    rw [List.cons_append, splitComma, splitComma, ih]
    by_cases hb : b = comma
    · rw [if_pos hb, if_pos hb, List.cons_append]
    · rw [if_neg hb, if_neg hb]
      cases hs : splitComma s with
      | nil => exact absurd hs (splitComma_ne_nil s)
      | cons p ps => rfl

/-- The grants the metadata of a message holds: any level without roles, or a level with a
short name and roles that are no names of levels. -/
def Kept (ag : AccessGrant) : Prop :=
  (0 ≤ ag.accessLevel.toInt ∧ ag.accessLevel.toInt ≤ 63) ∧
    (ag.access = [] ∨ accessLevelToAccessString ag.accessLevel ≠ [] ∧
      ∀ p ∈ splitComma ag.access, IsRole p)

theorem getD_accessLevelFromInt_eq_iff (level : AccessLevel) :
    (accessLevelFromInt level.toInt).getD .None = level ↔
      0 ≤ level.toInt ∧ level.toInt ≤ 63 := by
  rw [accessLevelFromInt]
  by_cases h : 0 ≤ level.toInt ∧ level.toInt ≤ 63
  · rw [if_pos h]
    exact ⟨fun _ => h, fun _ => rfl⟩
  · rw [if_neg h]
    refine ⟨fun he => ?_, fun he => absurd he h⟩
    rw [← he]
    exact ⟨by decide, by decide⟩

theorem toAccessString_ne_nil_of_fromAccessString {s : Bytes} {level : AccessLevel}
    (h : accessLevelFromAccessString s = some level) : accessLevelToAccessString level ≠ [] := by
  have hall : ∀ e ∈ accessStrings, accessLevelToAccessString e.1 ≠ [] := by decide
  rw [accessLevelFromAccessString, Option.map_eq_some_iff] at h
  obtain ⟨e, he, rfl⟩ := h
  exact hall e (List.mem_of_find?_eq_some he)

/-- What `fromShv2Access` has read: no level or one with a short name, and roles. -/
def FromNames (ag : AccessGrant) : Prop :=
  (ag.accessLevel = .None ∨ accessLevelToAccessString ag.accessLevel ≠ []) ∧
    (ag.access = [] ∨ ∀ p ∈ splitComma ag.access, IsRole p)

theorem fromNames_addPiece {ag : AccessGrant} (h : ag.FromNames) {piece : Bytes}
    (hcomma : comma ∉ piece) : (ag.addPiece piece).FromNames := by
  rw [addPiece]
  by_cases hp : piece = []
  · rw [if_pos hp]
    exact h
  · rw [if_neg hp]
    cases hl : accessLevelFromAccessString piece with
    | some level =>
      by_cases hlt : ag.accessLevel.toInt < level.toInt
      · simp only [if_pos hlt]
        exact ⟨.inr (toAccessString_ne_nil_of_fromAccessString hl), h.2⟩
      · simp only [if_neg hlt]
        exact h
    | none =>
      refine ⟨h.1, .inr ?_⟩
      by_cases ha : ag.access = []
      · simp only [if_pos ha, splitComma_of_not_mem hcomma, List.mem_singleton]
        rintro p rfl
        exact ⟨hp, hl⟩
      · simp only [if_neg ha, splitComma_append_comma, splitComma_of_not_mem hcomma,
          List.mem_append, List.mem_singleton]
        rintro p (hmem | rfl)
        · exact h.2.resolve_left ha p hmem
        · exact ⟨hp, hl⟩

/-- A grant made from the text of a rule is kept by the metadata of a message. -/
theorem kept_of_rule {s : Bytes}
    (h : AccessLevel.None.toInt < (fromShv2Access s 0).accessLevel.toInt) :
    (fromShv2Access s 0).Kept := by
  have hfold : ∀ (pieces : List Bytes) (ag : AccessGrant), ag.FromNames →
      (∀ p ∈ pieces, comma ∉ p) → (pieces.foldl addPiece ag).FromNames := by
    intro pieces
    induction pieces with
    | nil => exact fun ag hag _ => hag
    | cons p ps ih =>
      intro ag hag hcomma
      exact ih _ (fromNames_addPiece hag (hcomma p List.mem_cons_self))
        fun q hq => hcomma q (List.mem_cons_of_mem _ hq)
  have hstart : (⟨(accessLevelFromInt 0).getD .None, []⟩ : AccessGrant).FromNames :=
    ⟨.inl (by decide), .inl rfl⟩
  obtain ⟨hlevel, haccess⟩ := hfold (splitComma s) _ hstart fun p hp =>
    comma_not_mem_of_mem_splitComma hp
  change (fromShv2Access s 0).accessLevel = .None ∨ _ at hlevel
  have hname : accessLevelToAccessString (fromShv2Access s 0).accessLevel ≠ [] := by
    refine hlevel.resolve_left fun hnone => ?_
    rw [hnone] at h
    exact absurd h (by decide)
  refine ⟨(getD_accessLevelFromInt_eq_iff _).mp ?_, haccess.imp_right fun hroles => ⟨hname, hroles⟩⟩
  rw [accessLevelFromInt_of_named hname]
  rfl

/-- Writing a grant as a legacy string and a number, and reading it back. -/
theorem fromShv2Access_toShv2Access_iff (ag : AccessGrant) :
    fromShv2Access ag.toShv2Access ag.accessLevel.toInt = ag ↔ ag.Kept := by
  have hlevel := getD_accessLevelFromInt_eq_iff ag.accessLevel
  obtain ⟨level, access⟩ := ag
  simp only at hlevel
  rw [fromShv2Access, toShv2Access, Kept]
  simp only
  by_cases hname : accessLevelToAccessString level = []
  · -- no short name: the roles are not written
    rw [if_pos hname, ← hlevel, AccessGrant.mk.injEq]
    change _ ∧ [] = access ↔ _
    constructor
    · rintro ⟨h, rfl⟩
      exact ⟨h, .inl rfl⟩
    · rintro ⟨h, rfl | h'⟩
      · exact ⟨h, rfl⟩
      · exact absurd hname h'.1
  · have hinit := accessLevelFromInt_of_named hname
    have hrange : 0 ≤ level.toInt ∧ level.toInt ≤ 63 := hlevel.mp (by rw [hinit]; rfl)
    have hfirst : addPiece ⟨level, []⟩ (accessLevelToAccessString level) = ⟨level, []⟩ := by
      rw [addPiece, if_neg hname, accessLevelFromAccessString_toAccessString hname]
      simp only
      rw [if_neg (by simp)]
    have hcomma := comma_not_mem_accessLevelToAccessString level
    rw [if_neg hname, hinit, Option.getD_some]
    by_cases haccess : access = []
    · rw [if_pos haccess, splitComma_of_not_mem hcomma, List.foldl_cons, hfirst, haccess]
      exact ⟨fun _ => ⟨hrange, .inl rfl⟩, fun _ => rfl⟩
    · rw [if_neg haccess, splitComma_append hcomma, List.foldl_cons, hfirst,
        foldl_splitComma_eq_iff haccess]
      constructor
      · intro h
        exact ⟨hrange, .inr ⟨hname, h⟩⟩
      · rintro ⟨-, h | h⟩
        · exact absurd h haccess
        · exact h.2

end AccessGrant

/-! ## the metadata -/

/-- What `setAccessGrant` stores is what `accessGrant` reads. -/
theorem accessGrant_setAccessGrant {md : RpcMetaData} (h : SortedMap.Sorted md.iValues)
    (ag : AccessGrant) :
    (md.setAccessGrant ag).accessGrant =
      .ok (.fromShv2Access ag.toShv2Access ag.accessLevel.toInt) := by
  have hsort : SortedMap.Sorted (md.setAccessLevel ag.accessLevel).iValues :=
    RpcMetaData.sorted_setIValue h _ _
  have haccess : (md.setAccessGrant ag).access = ag.toShv2Access := by
    rw [RpcMetaData.access, RpcMetaData.setAccessGrant, RpcMetaData.setAccess,
      RpcMetaData.valueOf_setIValue_self hsort]
    by_cases hs : ag.toShv2Access = []
    · rw [if_pos hs, hs]
      rfl
    · rw [if_neg hs]
      rfl
  have hlevel : (md.setAccessGrant ag).accessLevel = .ok ag.accessLevel.toInt := by
    rw [RpcMetaData.accessLevel, RpcMetaData.setAccessGrant, RpcMetaData.setAccess,
      RpcMetaData.valueOf_setIValue_of_ne (by decide), RpcMetaData.setAccessLevel,
      RpcMetaData.valueOf_setIValue_self h]
    by_cases hl : ag.accessLevel = .None
    · rw [if_pos hl, hl]
      rfl
    · rw [if_neg hl]
      exact RpcValue.toInt_ofInt32 _
  rw [RpcMetaData.accessGrant, haccess, hlevel]
  rfl

/-- A grant survives the metadata of a message exactly if it is one that is kept. -/
theorem accessGrant_setAccessGrant_iff (md : RpcMetaData) (h : SortedMap.Sorted md.iValues)
    (ag : AccessGrant) :
    (md.setAccessGrant ag).accessGrant = .ok ag ↔ ag.Kept := by
  rw [accessGrant_setAccessGrant h, Except.ok.injEq, AccessGrant.fromShv2Access_toShv2Access_iff]

theorem accessGrant_setAccessGrant_iff_empty :
    (RpcMetaData.empty.setAccessGrant ⟨.Write, ascii "foo,bar"⟩).accessGrant =
        .ok ⟨.Write, ascii "foo,bar"⟩ ↔
      AccessGrant.Kept ⟨.Write, ascii "foo,bar"⟩ :=
  accessGrant_setAccessGrant_iff .empty SortedMap.sorted_nil _

/-- A level without a short name takes its roles with it, and a role with the
name of a level raises the level. -/
theorem accessGrant_lost :
    (RpcMetaData.empty.setAccessGrant ⟨⟨9⟩, ascii "foo"⟩).accessGrant = .ok ⟨⟨9⟩, []⟩ ∧
      (RpcMetaData.empty.setAccessGrant ⟨.Read, ascii "su"⟩).accessGrant = .ok ⟨.Admin, []⟩ := by
  have h : SortedMap.Sorted RpcMetaData.empty.iValues := SortedMap.sorted_nil
  constructor
  · rw [accessGrant_setAccessGrant h, Except.ok.injEq]
    decide
  · rw [accessGrant_setAccessGrant h, Except.ok.injEq]
    decide

end LibShv
