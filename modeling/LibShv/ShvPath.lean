import LibShv.RpcValue
import LibShv.Lib.DirPath
import LibShv.Lib.QuotedSplit

/-!
# LibShv.ShvPath

Paths in the tree of nodes (`shvpath.cpp`, `utils.cpp`): texts with slashes
between the directories, of which one in quotes may have slashes in it.
-/

namespace LibShv

def SHV_PATH_DELIM : UInt8 := 0x2f
def SHV_PATH_QUOTE : UInt8 := 0x27

/-! ## a path at the start of another -/

/-- `shvpath::startsWithPath`. -/
def startsWithPath (str path : Bytes) : Bool :=
  if path = [] then true
  else if path.isPrefixOf str then
    str.length = path.length ∨ str[path.length]? = some SHV_PATH_DELIM ∨
      path.getLast? = some SHV_PATH_DELIM
  else false

/-- `shvpath::startsWithPath` with a place for the position behind the path,
which is `npos` if the result is false. -/
def startsWithPathPos (str path : Bytes) : Option Nat :=
  if path = [] then some 0
  else if path.isPrefixOf str then
    if str.length = path.length then some str.length
    else if str[path.length]? = some SHV_PATH_DELIM then some (path.length + 1)
    else if path.getLast? = some SHV_PATH_DELIM then some path.length
    else none
  else none

theorem isPrefix_of_startsWithPath {str path : Bytes} (h : startsWithPath str path = true) :
    path <+: str := by
  rw [startsWithPath] at h
  by_cases hnil : path = []
  · rw [hnil]
    exact List.nil_prefix
  · rw [if_neg hnil] at h
    by_cases hpre : path.isPrefixOf str = true
    · exact List.isPrefixOf_iff_prefix.mp hpre
    · rw [if_neg hpre] at h
      contradiction

/-- Asking for the position does not change the answer. -/
theorem startsWithPathPos_isSome (str path : Bytes) :
    (startsWithPathPos str path).isSome = startsWithPath str path := by
  rw [startsWithPathPos, startsWithPath]
  by_cases hnil : path = []
  · simp [hnil]
  · rw [if_neg hnil, if_neg hnil]
    by_cases hpre : path.isPrefixOf str = true
    · rw [if_pos hpre, if_pos hpre]
      by_cases hlen : str.length = path.length
      · simp [hlen]
      · by_cases hdelim : str[path.length]? = some SHV_PATH_DELIM
        · simp [hlen, hdelim]
        · by_cases hlast : path.getLast? = some SHV_PATH_DELIM
          · simp only [hlen, hdelim, hlast, if_true, if_false, or_true, Option.isSome_some,
              decide_true]
          · simp [hlen, hdelim, hlast]
    · rw [if_neg hpre, if_neg hpre]
      rfl

/-! ## joining and splitting -/

/-- `utils::joinPath`: one delimiter between the paths. -/
def joinPath (p1 p2 : Bytes) : Bytes :=
  let sv1 := (p1.reverse.dropWhile (· = SHV_PATH_DELIM)).reverse
  let sv2 := p2.dropWhile (· = SHV_PATH_DELIM)
  if sv2 = [] then sv1 else if sv1 = [] then sv2 else sv1 ++ SHV_PATH_DELIM :: sv2

/-- `utils::getToken` up to a path delimiter that is not quoted. -/
def getPathToken (in_quotes : Bool) : Bytes → Bytes
  | [] => []
  | c :: cs =>
    if c = SHV_PATH_QUOTE then c :: getPathToken (!in_quotes) cs
    else if c = SHV_PATH_DELIM ∧ !in_quotes then []
    else c :: getPathToken in_quotes cs

/-- `ShvPath::takeFirsDir`: what is left of the path. -/
def takeFirsDir (path : Bytes) : Bytes := path.drop ((getPathToken false path).length + 1)

/-- A directory without the quotes around it. -/
def removeQuotes (token : Bytes) : Bytes :=
  if 2 ≤ token.length ∧ token.head? = some SHV_PATH_QUOTE ∧
      token.getLast? = some SHV_PATH_QUOTE then token.tail.dropLast
  else token

/-- The loop of `utils::split` for directories, of at most `fuel` rounds: empty parts are
skipped and quotes are removed. -/
def splitTokens : Nat → Bytes → List Bytes
  | 0, _ => []
  | fuel + 1, strv =>
    let token := getPathToken false strv
    let dirs := if token = [] then [] else [removeQuotes token]
    if strv.length ≤ token.length then dirs
    else dirs ++ splitTokens fuel (strv.drop (token.length + 1))

/-- `ShvPath::splitPath`. Every round takes a character at least. -/
def splitPath (shv_path : Bytes) : List Bytes :=
  if shv_path = [] then [] else splitTokens (shv_path.length + 1) shv_path

/-- More rounds than characters do not matter. -/
theorem splitTokens_eq_of_lt {n m : Nat} {strv : Bytes} (hn : strv.length < n)
    (hm : strv.length < m) : splitTokens n strv = splitTokens m strv := by
  induction n generalizing m strv with
  | zero => omega
  | succ n ih =>
    cases m with
    | zero => omega
    | succ m =>
      rw [splitTokens, splitTokens]
      by_cases hlen : strv.length ≤ (getPathToken false strv).length
      · simp [hlen]
      · have hdrop : splitTokens n (strv.drop ((getPathToken false strv).length + 1)) =
            splitTokens m (strv.drop ((getPathToken false strv).length + 1)) := by
          apply ih
          · rw [List.length_drop]
            omega
          · rw [List.length_drop]
            omega
        simp only [hlen, if_false, hdrop]

@[simp] theorem splitPath_nil : splitPath [] = [] := rfl

/-- One round of the loop. -/
theorem splitPath_eq (path : Bytes) :
    splitPath path =
      (if getPathToken false path = [] then [] else [removeQuotes (getPathToken false path)]) ++
        splitPath (path.drop ((getPathToken false path).length + 1)) := by
  by_cases hnil : path = []
  · simp [hnil, getPathToken]
  · rw [splitPath, if_neg hnil, splitTokens]
    by_cases hlen : path.length ≤ (getPathToken false path).length
    · rw [List.drop_of_length_le (by omega), splitPath_nil, List.append_nil]
      simp only [hlen, if_true]
    · rw [if_neg hlen]
      congr 1
      rw [splitPath]
      by_cases hrest : path.drop ((getPathToken false path).length + 1) = []
      · rw [if_pos hrest, hrest]
        cases hfuel : path.length with
        | zero => rfl
        | succ n => rfl
      · rw [if_neg hrest]
        apply splitTokens_eq_of_lt
        · rw [List.length_drop]
          omega
        · omega

/-- `need_quotes` for a directory. -/
def needQuotes (dir : Bytes) : Bool :=
  SHV_PATH_DELIM ∈ dir ∧
    ¬(2 ≤ dir.length ∧ dir.head? = some SHV_PATH_QUOTE ∧ dir.getLast? = some SHV_PATH_QUOTE)

/-- `ShvPath::joinDirs`. -/
def joinDirs (dirs : List Bytes) : Bytes :=
  dirs.foldl (fun ret dir =>
    if dir = [] then ret
    else
      let ret := if ret ≠ [] then ret ++ [SHV_PATH_DELIM] else ret
      if needQuotes dir then ret ++ SHV_PATH_QUOTE :: dir ++ [SHV_PATH_QUOTE] else ret ++ dir) []

/-! ### as lists that are split at delimiters outside of quotes -/

theorem delim_ne_quote : SHV_PATH_DELIM ≠ SHV_PATH_QUOTE := by decide

theorem joinDirs_eq (dirs : List Bytes) :
    joinDirs dirs = QuotedSplit.join SHV_PATH_DELIM SHV_PATH_QUOTE dirs := by
  rw [joinDirs, QuotedSplit.join]
  congr 1
  funext ret dir
  by_cases hdir : dir = []
  · rw [if_pos hdir, if_pos hdir]
  · rw [if_neg hdir, if_neg hdir, QuotedSplit.requote]
    by_cases hquotes : needQuotes dir = true
    · have hquote : SHV_PATH_DELIM ∈ dir ∧ ¬QuotedSplit.Quoted SHV_PATH_QUOTE dir :=
        of_decide_eq_true hquotes
      rw [if_pos hquotes, if_pos hquote]
      by_cases hret : ret = []
      · simp [hret]
      · simp [hret]
    · have hquote : ¬(SHV_PATH_DELIM ∈ dir ∧ ¬QuotedSplit.Quoted SHV_PATH_QUOTE dir) :=
        fun h => hquotes (decide_eq_true h)
      rw [if_neg hquotes, if_neg hquote]
      by_cases hret : ret = []
      · simp [hret]
      · simp [hret]

/-- The token is the first piece. -/
theorem pieces_eq_getPathToken (in_quotes : Bool) (path : Bytes) :
    QuotedSplit.pieces SHV_PATH_DELIM SHV_PATH_QUOTE in_quotes path =
      getPathToken in_quotes path ::
        if path.length ≤ (getPathToken in_quotes path).length then []
        else QuotedSplit.pieces SHV_PATH_DELIM SHV_PATH_QUOTE false
          (path.drop ((getPathToken in_quotes path).length + 1)) := by
  induction path generalizing in_quotes with
  | nil => rfl
  | cons c cs ih =>
    rw [QuotedSplit.pieces, getPathToken]
    by_cases hquote : c = SHV_PATH_QUOTE
    · rw [if_pos hquote, if_pos hquote, ih, QuotedSplit.consHead]
      simp
    · rw [if_neg hquote, if_neg hquote]
      by_cases hdelim : c = SHV_PATH_DELIM ∧ (!in_quotes) = true
      · rw [if_pos hdelim, if_pos hdelim]
        simp
      · rw [if_neg hdelim, if_neg hdelim, ih, QuotedSplit.consHead]
        simp

theorem splitPath_eq_split (path : Bytes) :
    splitPath path = QuotedSplit.split SHV_PATH_DELIM SHV_PATH_QUOTE path := by
  generalize hn : path.length = n
  induction n using Nat.strongRecOn generalizing path with
  | _ n ih =>
    rw [splitPath_eq, QuotedSplit.split, pieces_eq_getPathToken, List.filter_cons]
    by_cases hlen : path.length ≤ (getPathToken false path).length
    · rw [if_pos hlen, List.drop_of_length_le (by omega), splitPath_nil, List.append_nil]
      by_cases htoken : getPathToken false path = []
      · simp [htoken]
      · simp only [htoken, if_false, ne_eq, not_false_eq_true, decide_true, if_true,
          List.filter_nil, List.map_cons, List.map_nil]
        rfl
    · rw [if_neg hlen, ih _ (by rw [List.length_drop]; omega) _ rfl]
      by_cases htoken : getPathToken false path = []
      · simp [htoken, QuotedSplit.split]
      · simp only [htoken, if_false, ne_eq, not_false_eq_true, decide_true, if_true,
          List.map_cons]
        rfl

/-- A directory that comes back when a path is joined and split: it is not empty and has no
quotes around it, and no slash in it is in quotes. -/
abbrev PlainDir (dir : Bytes) : Prop := QuotedSplit.Plain SHV_PATH_DELIM SHV_PATH_QUOTE dir

/-! ## trimmed paths -/

/-- No slash at either end. -/
abbrev TrimmedPath (path : Bytes) : Prop := DirPath.Trimmed SHV_PATH_DELIM path

/-- The path `path` is `dir` or lies below it. -/
abbrev BelowPath (dir path : Bytes) : Prop := DirPath.Below SHV_PATH_DELIM dir path

theorem startsWithPath_nil (str : Bytes) : startsWithPath str [] = true := rfl

/-- What `startsWithPath` is for: the second path is a directory of the first, unless
it ends with a slash. -/
theorem startsWithPath_iff_below {str path : Bytes} (h : path.getLast? ≠ some SHV_PATH_DELIM) :
    startsWithPath str path = true ↔ BelowPath path str := by
  rw [startsWithPath]
  by_cases hnil : path = []
  · simp [hnil, BelowPath, DirPath.Below]
  · rw [if_neg hnil]
    by_cases hpre : path.isPrefixOf str = true
    · obtain ⟨t, rfl⟩ := List.isPrefixOf_iff_prefix.mp hpre
      cases t with
      | nil => simp [BelowPath, DirPath.Below]
      | cons c cs => simp [BelowPath, DirPath.Below, hnil, h]
    · rw [if_neg hpre]
      have hnot : ∀ t, str ≠ path ++ t := by
        intro t ht
        exact hpre (List.isPrefixOf_iff_prefix.mpr ⟨t, ht.symm⟩)
      constructor
      · simp
      · rintro (h' | h' | ⟨r, h'⟩)
        · contradiction
        · exact absurd (h'.trans (List.append_nil _).symm) (hnot [])
        · exact absurd h' (hnot _)

/-- The position behind a directory of a path, if the path is not the directory itself. -/
theorem startsWithPathPos_append_delim {dir : Bytes} (hdir : dir ≠ []) (t : Bytes) :
    startsWithPathPos (dir ++ SHV_PATH_DELIM :: t) dir = some (dir.length + 1) := by
  have hpre : dir.isPrefixOf (dir ++ SHV_PATH_DELIM :: t) = true :=
    List.isPrefixOf_iff_prefix.mpr ⟨_, rfl⟩
  simp [startsWithPathPos, hdir, hpre]

theorem startsWithPathPos_self {dir : Bytes} (hdir : dir ≠ []) :
    startsWithPathPos dir dir = some dir.length := by
  simp [startsWithPathPos, hdir]

theorem dropWhile_delim {path : Bytes} (h : path.head? ≠ some SHV_PATH_DELIM) :
    path.dropWhile (· = SHV_PATH_DELIM) = path := by
  cases path with
  | nil => rfl
  | cons c cs =>
    have hc : c ≠ SHV_PATH_DELIM := fun hc => h (congrArg some hc)
    rw [List.dropWhile_cons_of_neg (by simpa using hc)]

/-- Paths without slashes at their ends are joined as they are. -/
theorem joinPath_eq_join {dir path : Bytes} (hdir : dir.getLast? ≠ some SHV_PATH_DELIM)
    (hpath : path.head? ≠ some SHV_PATH_DELIM) :
    joinPath dir path = DirPath.join SHV_PATH_DELIM dir path := by
  have hrev : dir.reverse.head? ≠ some SHV_PATH_DELIM := by rwa [List.head?_reverse]
  rw [joinPath, dropWhile_delim hrev, dropWhile_delim hpath, List.reverse_reverse]
  rfl

end LibShv
