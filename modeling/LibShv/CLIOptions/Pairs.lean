import LibShv.CLIOptions

/-!
# LibShv.CLIOptions.Pairs

A command line of pairs of a name and a value. A negative number is looked at as the value of
an integer and not taken, so that it is the next argument once more.
-/

namespace LibShv.CLIOptions

/-! ## options and their values -/

/-- The options with other values. -/
def withValues (m : List (Bytes × CLIOption)) (vals : Bytes → RpcValue) :
    List (Bytes × CLIOption) :=
  m.map fun kv => (kv.1, kv.2.setValue (vals kv.1))

/-- Options that have a type, none of them set, with the two that there always are. -/
structure Declared (m : List (Bytes × CLIOption)) : Prop where
  sorted : SortedMap.Sorted m
  typed : ∀ kv ∈ m, kv.2.type ≠ .Invalid
  unset : ∀ kv ∈ m, kv.2.value = .invalid
  distinct : ∀ kv ∈ m, ∀ kv' ∈ m, ∀ name ∈ kv.2.names, name ∈ kv'.2.names → kv = kv'
  help : ∃ opt, (ascii "help", opt) ∈ m ∧ opt.type = .Bool ∧
    opt.names = [ascii "-h", ascii "--help"]
  abort : ∃ opt, (ascii "abortOnException", opt) ∈ m

section Options

variable {m : List (Bytes × CLIOption)}

theorem setValue_setValue (opt : CLIOption) (v w : RpcValue) :
    (opt.setValue v).setValue w = opt.setValue w := rfl

theorem withValues_unset (h : Declared m) : withValues m (fun _ => .invalid) = m := by
  refine (List.map_congr_left fun kv hkv => ?_).trans (List.map_id m)
  refine Prod.ext rfl ?_
  rw [← h.unset kv hkv]
  rfl

/-- Names do not change with the values. -/
theorem named_withValues (vals : Bytes → RpcValue) (arg : Bytes) :
    named (withValues m vals) arg =
      (named m arg).map fun kv => (kv.1, kv.2.setValue (vals kv.1)) := by
  rw [named, withValues, List.find?_map]
  rfl

theorem find?_withValues (h : SortedMap.Sorted m) (vals : Bytes → RpcValue)
    {kv : Bytes × CLIOption} (hkv : kv ∈ m) :
    SortedMap.find? kv.1 (withValues m vals) = some (kv.2.setValue (vals kv.1)) := by
  refine SortedMap.find?_of_mem ?_ (List.mem_map.mpr ⟨kv, hkv, rfl⟩)
  rw [withValues, List.map_map]
  exact h.keys_nodup

/-- Setting an option changes the value of its key. -/
theorem insert_withValues (h : SortedMap.Sorted m) (vals : Bytes → RpcValue)
    {kv : Bytes × CLIOption} (hkv : kv ∈ m) (val : RpcValue) :
    SortedMap.insert kv.1 (kv.2.setValue val) (withValues m vals) =
      withValues m (Function.update vals kv.1 val) := by
  induction m with
  | nil => contradiction
  | cons x m ih =>
    have hother : ∀ y ∈ m, y.1 ≠ x.1 := fun y hy heq => h.ne_of_mem hy heq
    rcases List.mem_cons.mp hkv with rfl | hmem
    · have hrest : withValues m (Function.update vals kv.1 val) = withValues m vals :=
        List.map_congr_left fun y hy => by rw [Function.update_of_ne (hother y hy)]
      change SortedMap.insert kv.1 (kv.2.setValue val) ((kv.1, _) :: withValues m vals) =
        (kv.1, kv.2.setValue (Function.update vals kv.1 val kv.1)) ::
          withValues m (Function.update vals kv.1 val)
      rw [hrest, Function.update_self]
      simp only [SortedMap.insert, Std.LawfulEqOrd.compare_eq_iff_eq.mpr]
    · have hgt : compare kv.1 x.1 = .gt :=
        Std.OrientedCmp.gt_of_lt ((SortedMap.sorted_cons.mp h).1 _ hmem)
      have hhead : Function.update vals kv.1 val x.1 = vals x.1 :=
        Function.update_of_ne (hother kv hmem).symm _ _
      change SortedMap.insert kv.1 (kv.2.setValue val)
        ((x.1, x.2.setValue (vals x.1)) :: withValues m vals) =
          (x.1, x.2.setValue (Function.update vals kv.1 val x.1)) ::
            withValues m (Function.update vals kv.1 val)
      rw [hhead, ← ih h.tail hmem]
      simp only [SortedMap.insert, hgt]

namespace Declared

variable (h : Declared m)
include h

/-- With distinct names the first option that has a name is the only one. -/
theorem named_eq {kv : Bytes × CLIOption} (hkv : kv ∈ m) {arg : Bytes}
    (harg : arg ∈ kv.2.names) : named m arg = some kv := by
  cases hfound : named m arg with
  | none =>
    have hno := List.find?_eq_none.mp hfound kv hkv
    exact absurd (List.contains_iff_mem.mpr harg) hno
  | some kv' =>
    have hfirst : m.find? (fun x => x.2.names.contains arg) = some kv' := hfound
    have hname := List.find?_some hfirst
    rw [h.distinct kv' (List.mem_of_find?_eq_some hfirst) kv hkv arg
      (List.contains_iff_mem.mp hname) harg]

theorem key_inj {kv kv' : Bytes × CLIOption} (hkv : kv ∈ m) (hkv' : kv' ∈ m)
    (heq : kv.1 = kv'.1) : kv = kv' := by
  have hfound := SortedMap.find?_of_mem h.sorted.keys_nodup hkv
  rw [heq, SortedMap.find?_of_mem h.sorted.keys_nodup hkv', Option.some.injEq] at hfound
  exact Prod.ext heq hfound.symm

end Declared

end Options

/-! ## pairs -/

/-- The arguments of pairs of a name and a value. -/
def argsOf (pairs : List (Bytes × Bytes)) : StringList := pairs.flatMap fun p => [p.1, p.2]

@[simp] theorem argsOf_nil : argsOf [] = [] := rfl

@[simp] theorem argsOf_cons (p : Bytes × Bytes) (pairs : List (Bytes × Bytes)) :
    argsOf (p :: pairs) = p.1 :: p.2 :: argsOf pairs := rfl

theorem argsOf_append (ps qs : List (Bytes × Bytes)) :
    argsOf (ps ++ qs) = argsOf ps ++ argsOf qs := List.flatMap_append

/-- Pairs of distinct options. A value is not empty, and starts with a minus sign only as an
integer of an integer option. -/
structure Given (m : List (Bytes × CLIOption)) (pairs : List (Bytes × Bytes)) : Prop where
  declared : ∀ p ∈ pairs, ∃ kv ∈ m, p.1 ∈ kv.2.names ∧ p.2 ≠ [] ∧
    (isSwitch p.2 = true → kv.2.type = .Int ∧ (textToInt p.2).isSome = true)
  distinct : pairs.Pairwise fun p q => ∀ kv ∈ m, p.1 ∈ kv.2.names → q.1 ∉ kv.2.names

section Given

variable {m : List (Bytes × CLIOption)}

theorem Given.tail {p : Bytes × Bytes} {pairs : List (Bytes × Bytes)} (h : Given m (p :: pairs)) :
    Given m pairs where
  declared q hq := h.declared q (List.mem_cons_of_mem _ hq)
  distinct := h.distinct.of_cons

theorem Given.left {ps qs : List (Bytes × Bytes)} (h : Given m (ps ++ qs)) : Given m ps where
  declared p hp := h.declared p (List.mem_append_left _ hp)
  distinct := (List.pairwise_append.mp h.distinct).1

end Given

/-- A negative number is not the help switch. -/
theorem not_isHelp_of_textToInt {arg : Bytes} (h : (textToInt arg).isSome = true) :
    ¬ IsHelp arg := by
  rintro (rfl | rfl)
  · exact absurd h (by decide)
  · exact absurd h (by decide)

section Run

variable (stod : Bytes → Option (UInt64 × Nat))

/-- The value that a text makes of an option with a type. -/
def textValue (type : RpcValueType) (val_str : Bytes) : RpcValue :=
  (CLIOption.valueOfString stod val_str type).getD .invalid

theorem setValueString_eq {opt : CLIOption} (h : opt.type ≠ .Invalid) (val_str : Bytes) :
    opt.setValueString stod val_str = opt.setValue (textValue stod opt.type val_str) := by
  obtain ⟨type, names, value, defaultValue, mandatory⟩ := opt
  cases type <;> first | rfl | exact absurd rfl h

/-- The options have other values, and more arguments are unused. -/
def run (o : CLIOptions) (vals : Bytes → RpcValue) (unused : StringList) : CLIOptions :=
  { o with m_options := withValues o.m_options vals, m_unusedArguments := unused }

/-- The values after pairs. -/
def valuesAfter (m : List (Bytes × CLIOption)) (vals : Bytes → RpcValue) :
    List (Bytes × Bytes) → Bytes → RpcValue
  | [] => vals
  | p :: pairs =>
    match named m p.1 with
    | some kv => valuesAfter m (Function.update vals kv.1 (textValue stod kv.2.type p.2)) pairs
    | none => valuesAfter m vals pairs

/-- The negative numbers among the values. -/
def switches (pairs : List (Bytes × Bytes)) : StringList := (pairs.map (·.2)).filter isSwitch

variable {o : CLIOptions} (h : Declared o.m_options)
include h

theorem setOption_run {kv : Bytes × CLIOption} (hkv : kv ∈ o.m_options) (vals : Bytes → RpcValue)
    (unused : StringList) (val_str : Bytes) :
    (run o vals unused).setOption kv.1
        ((kv.2.setValue (vals kv.1)).setValueString stod val_str) =
      run o (Function.update vals kv.1 (textValue stod kv.2.type val_str)) unused := by
  have htype : (kv.2.setValue (vals kv.1)).type ≠ .Invalid := h.typed kv hkv
  rw [setValueString_eq stod htype, setValue_setValue]
  exact congrArg
    (fun m => ({ o with m_options := m, m_unusedArguments := unused } : CLIOptions))
    (insert_withValues h.sorted vals hkv _)

/-- One pair: its option is set, and a negative number is left over. -/
theorem parseLoop_pair {kv : Bytes × CLIOption} (hkv : kv ∈ o.m_options) {name value : Bytes}
    (hname : name ∈ kv.2.names) (hhelp : ¬ IsHelp name)
    (hint : isSwitch value = true → kv.2.type = .Int ∧ (textToInt value).isSome = true)
    (hfree : isSwitch value = true → ∀ kv ∈ o.m_options, value ∉ kv.2.names)
    (vals : Bytes → RpcValue) (unused rest : StringList) :
    parseLoop stod (name :: value :: rest) (run o vals unused) =
      parseLoop stod rest
        (run o (Function.update vals kv.1 (textValue stod kv.2.type value))
          (unused ++ if isSwitch value then [value] else [])) := by
  have hnamed : named (run o vals unused).m_options name =
      some (kv.1, kv.2.setValue (vals kv.1)) := by
    change named (withValues o.m_options vals) name = _
    rw [named_withValues, h.named_eq hkv hname]
    rfl
  rw [parseLoop, if_neg hhelp, hnamed]
  by_cases hswitch : isSwitch value = true
  · obtain ⟨htype, hsome⟩ := hint hswitch
    have htype' : (kv.2.setValue (vals kv.1)).type = .Int := htype
    have hnone : ∀ vals', named (withValues o.m_options vals') value = none := by
      intro vals'
      rw [named_withValues, Option.map_eq_none_iff]
      refine List.find?_eq_none.mpr fun kv' hkv' hmem => ?_
      exact hfree hswitch kv' hkv' (List.contains_iff_mem.mp hmem)
    simp only [if_pos hswitch, if_pos htype']
    rw [setOption_run stod h hkv, parseLoop, if_neg (not_isHelp_of_textToInt hsome)]
    have hnone' := hnone (Function.update vals kv.1 (textValue stod kv.2.type value))
    simp only [run, hnone', if_pos hswitch]
  · simp only [if_neg hswitch, List.append_nil]
    rw [setOption_run stod h hkv]

theorem valuesAfter_cons {kv : Bytes × CLIOption} (hkv : kv ∈ o.m_options) {p : Bytes × Bytes}
    (hname : p.1 ∈ kv.2.names) (vals : Bytes → RpcValue) (pairs : List (Bytes × Bytes)) :
    valuesAfter stod o.m_options vals (p :: pairs) = valuesAfter stod o.m_options
      (Function.update vals kv.1 (textValue stod kv.2.type p.2)) pairs := by
  rw [valuesAfter, h.named_eq hkv hname]

/-- An option that is not given keeps its value. -/
theorem valuesAfter_of_not_given {kv : Bytes × CLIOption} (hkv : kv ∈ o.m_options)
    {pairs : List (Bytes × Bytes)} (hgiven : Given o.m_options pairs)
    (hnot : ∀ p ∈ pairs, p.1 ∉ kv.2.names) (vals : Bytes → RpcValue) :
    valuesAfter stod o.m_options vals pairs kv.1 = vals kv.1 := by
  induction pairs generalizing vals with
  | nil => rfl
  | cons p pairs ih =>
    obtain ⟨kv', hkv', hname, -⟩ := hgiven.declared p List.mem_cons_self
    have hne : kv.1 ≠ kv'.1 := by
      intro heq
      rw [h.key_inj hkv hkv' heq] at hnot
      exact hnot p List.mem_cons_self hname
    rw [valuesAfter_cons stod h hkv' hname,
      ih hgiven.tail fun q hq => hnot q (List.mem_cons_of_mem _ hq), Function.update_of_ne hne]

/-- An option that is given has its value. -/
theorem valuesAfter_of_given {kv : Bytes × CLIOption} (hkv : kv ∈ o.m_options)
    {pairs : List (Bytes × Bytes)} (hgiven : Given o.m_options pairs) {p : Bytes × Bytes}
    (hp : p ∈ pairs) (hname : p.1 ∈ kv.2.names) (vals : Bytes → RpcValue) :
    valuesAfter stod o.m_options vals pairs kv.1 = textValue stod kv.2.type p.2 := by
  induction pairs generalizing vals with
  | nil => contradiction
  | cons q pairs ih =>
    rcases List.mem_cons.mp hp with rfl | hp
    · rw [valuesAfter_cons stod h hkv hname, valuesAfter_of_not_given stod h hkv hgiven.tail,
        Function.update_self]
      exact fun q hq => List.rel_of_pairwise_cons hgiven.distinct hq kv hkv hname
    · obtain ⟨kv', hkv', hname', -⟩ := hgiven.declared q List.mem_cons_self
      rw [valuesAfter_cons stod h hkv' hname', ih hgiven.tail hp]

/-- All pairs, one after another. -/
theorem parseLoop_pairs {pairs : List (Bytes × Bytes)} (hgiven : Given o.m_options pairs)
    (hhelp : ∀ p ∈ pairs, ¬ IsHelp p.1)
    (hfree : ∀ p ∈ pairs, isSwitch p.2 = true → ∀ kv ∈ o.m_options, p.2 ∉ kv.2.names)
    (vals : Bytes → RpcValue) (unused rest : StringList) :
    parseLoop stod (argsOf pairs ++ rest) (run o vals unused) =
      parseLoop stod rest
        (run o (valuesAfter stod o.m_options vals pairs) (unused ++ switches pairs)) := by
  induction pairs generalizing vals unused with
  | nil =>
    rw [switches, List.map_nil, List.filter_nil, List.append_nil]
    rfl
  | cons p pairs ih =>
    obtain ⟨kv, hkv, hname, -, hint⟩ := hgiven.declared p List.mem_cons_self
    have hswitches : (if isSwitch p.2 then [p.2] else []) ++ switches pairs =
        switches (p :: pairs) := by
      rw [switches, switches, List.map_cons, List.filter_cons]
      split
      · rfl
      · rfl
    rw [argsOf_cons, List.cons_append, List.cons_append,
      parseLoop_pair stod h hkv hname (hhelp p List.mem_cons_self) hint
        (hfree p List.mem_cons_self),
      ih hgiven.tail (fun q hq => hhelp q (List.mem_cons_of_mem _ hq))
        (fun q hq => hfree q (List.mem_cons_of_mem _ hq)),
      valuesAfter_cons stod h hkv hname, List.append_assoc, hswitches]

/-- The help switch is set, and the arguments that follow are not looked at. -/
theorem parseLoop_help {arg : Bytes} (harg : IsHelp arg) (vals : Bytes → RpcValue)
    (unused rest : StringList) :
    parseLoop stod (arg :: rest) (run o vals unused) =
      .ok { run o (Function.update vals (ascii "help") (.ofVariant (.bool true))) unused with
        m_isAppBreak := true } := by
  obtain ⟨opt, hopt, htype, -⟩ := h.help
  have hfind : SortedMap.find? (ascii "help") (run o vals unused).m_options =
      some (opt.setValue (vals (ascii "help"))) := find?_withValues h.sorted vals hopt
  have hvalid : (opt.setValue (vals (ascii "help"))).isValid = true := by
    simp [CLIOption.isValid, CLIOption.setValue, htype]
  rw [parseLoop, if_pos harg, setHelp, setValue, hfind]
  simp only [if_pos hvalid, setValue_setValue]
  exact congrArg (fun m => Except.ok
    ({ o with m_options := m, m_unusedArguments := unused, m_isAppBreak := true } : CLIOptions))
    (insert_withValues h.sorted vals hopt _)

/-- The options are what they were before the loop, with other values. -/
theorem isAbortOnException_run (vals : Bytes → RpcValue) (unused errors : StringList) :
    ∃ b, { run o vals unused with m_parseErrors := errors }.isAbortOnException = .ok b := by
  obtain ⟨opt, hopt⟩ := h.abort
  have hfind : SortedMap.find? (ascii "abortOnException") (withValues o.m_options vals) =
      some (opt.setValue (vals (ascii "abortOnException"))) := find?_withValues h.sorted vals hopt
  rw [isAbortOnException, valueHelper]
  simp only [run, hfind]
  split
  · exact ⟨_, rfl⟩
  · exact ⟨_, rfl⟩

end Run

/-! ## values of a type -/

/-- The number that is the whole text, within bounds. -/
def wholeNumber (lo hi : Int) (str : Bytes) : Option Int :=
  let (neg, ds) := takeSign (str.dropWhile isSpace)
  if ds ≠ [] ∧ ∀ d ∈ ds, 48 ≤ d ∧ d ≤ 57 then
    let n : Int := if neg then -Decimal.value 0 ds else Decimal.value 0 ds
    if lo ≤ n ∧ n ≤ hi then some n else none
  else none

/-- The `int` in a text, and 0 without one. -/
def intNumber (str : Bytes) : Int := (wholeNumber (-2 ^ 31) (2 ^ 31 - 1) str).getD 0

/-- The `unsigned` in a text, and 0 without one. -/
def uintNumber (str : Bytes) : Int := (wholeNumber 0 (2 ^ 32 - 1) str).getD 0

theorem toInt_textToInt (str : Bytes) : ((textToInt str).getD 0).toInt = intNumber str := by
  have hmin : Int32.minValue.toInt = -2 ^ 31 := by decide
  have hmax : Int32.maxValue.toInt = 2 ^ 31 - 1 := by decide
  have hcut : ∀ n : Int,
      ((if -2 ^ 31 ≤ n ∧ n ≤ 2 ^ 31 - 1 then some (Int32.ofInt n) else none).getD 0).toInt =
        (if -2 ^ 31 ≤ n ∧ n ≤ 2 ^ 31 - 1 then some n else none).getD 0 := by
    intro n
    by_cases hn : -2 ^ 31 ≤ n ∧ n ≤ 2 ^ 31 - 1
    · rw [if_pos hn, if_pos hn, Option.getD_some, Option.getD_some]
      exact Int32.toInt_ofInt_of_le (by omega) (by omega)
    · rw [if_neg hn, if_neg hn]
      rfl
  rw [textToInt, intNumber, wholeNumber, hmin, hmax]
  dsimp only
  by_cases hdigits : (takeSign (str.dropWhile isSpace)).2 ≠ [] ∧
      ∀ d ∈ (takeSign (str.dropWhile isSpace)).2, 48 ≤ d ∧ d ≤ 57
  · rw [if_pos hdigits, if_pos hdigits]
    exact hcut _
  · rw [if_neg hdigits, if_neg hdigits]
    rfl

/-- An integer, signed or unsigned. -/
def IsInteger (v : RpcValue) (z : Int) : Prop :=
  (∃ n : Int64, v = .ofVariant (.int n) ∧ n.toInt = z) ∨
    ∃ n : UInt64, v = .ofVariant (.uint n) ∧ (n.toNat : Int) = z

section Property

variable (stod : Bytes → Option (UInt64 × Nat))

/-- The text stands for the value in an option with the type. -/
def Denotes : RpcValueType → Bytes → RpcValue → Prop
  | .Invalid, _, _ => False
  | .Bool, str, v => v = .ofVariant (.bool (CLIOption.textToBool str))
  | .Int, str, v => IsInteger v (intNumber str)
  | .UInt, str, v => IsInteger v (uintNumber str)
  | .Double, str, v => v = .ofVariant (.double (textToDouble stod str))
  | _, str, v => v = .ofVariant (.string str)

theorem isInteger_int_iff (n : Int32) (z : Int) :
    IsInteger (.ofVariant (.int n.toInt64)) z ↔ n.toInt = z := by
  simp [IsInteger, RpcValue.ofVariant]

/-- The value that is set is the one that the text stands for, apart from an `unsigned` that
is no `int`. -/
theorem denotes_textValue_iff {type : RpcValueType} (h : type ≠ .Invalid) (str : Bytes) :
    Denotes stod type str (textValue stod type str) ↔
      (type = .UInt → intNumber str = uintNumber str) := by
  cases type with
  | Invalid => exact absurd rfl h
  | Int =>
    refine iff_of_true ?_ fun heq => nomatch heq
    exact (isInteger_int_iff _ _).mpr (toInt_textToInt str)
  | UInt =>
    rw [← toInt_textToInt]
    exact (isInteger_int_iff _ _).trans ⟨fun heq _ => heq, fun heq => heq rfl⟩
  | _ => exact iff_of_true rfl fun heq => nomatch heq

theorem not_denotes_invalid {type : RpcValueType} {str : Bytes} :
    ¬ Denotes stod type str .invalid := by
  cases type <;> simp [Denotes, IsInteger, RpcValue.invalid, RpcValue.ofVariant]

/-- Every option that is given has its value, the others have none, and no argument is
unused. -/
def ParsesTo (o : CLIOptions) (app : Bytes) (pairs : List (Bytes × Bytes)) : Prop :=
  ∃ o' abort, parse stod o (app :: argsOf pairs) = .ok (o', abort) ∧ o'.m_unusedArguments = [] ∧
    ∀ kv ∈ o.m_options, ∃ v, SortedMap.find? kv.1 o'.m_options = some (kv.2.setValue v) ∧
      (∀ p ∈ pairs, p.1 ∈ kv.2.names → Denotes stod kv.2.type p.2 v) ∧
      ((∀ p ∈ pairs, p.1 ∉ kv.2.names) → v = .invalid)

/-- No value starts with a minus sign, the help switch comes last if at all, and an option of
type `UInt` is given an `int`. -/
structure Plain (m : List (Bytes × CLIOption)) (pairs : List (Bytes × Bytes)) : Prop where
  not_switch : ∀ p ∈ pairs, isSwitch p.2 = false
  help_last : ∀ p ∈ pairs, IsHelp p.1 →
    pairs.getLast? = some p ∧ CLIOption.textToBool p.2 = true
  uint : ∀ p ∈ pairs, ∀ kv ∈ m, p.1 ∈ kv.2.names → kv.2.type = .UInt →
    intNumber p.2 = uintNumber p.2

variable {o : CLIOptions} (h : Declared o.m_options)
include h

/-- The options before the first argument. -/
theorem run_start (args : StringList) :
    run (o.start args) (fun _ => .invalid) [] = o.start args :=
  congrArg (fun m => { o.start args with m_options := m }) (withValues_unset h)

/-- A command line without the help switch. -/
theorem parse_of_no_help (app : Bytes) {pairs : List (Bytes × Bytes)}
    (hgiven : Given o.m_options pairs) (hhelp : ∀ p ∈ pairs, ¬ IsHelp p.1)
    (hfree : ∀ p ∈ pairs, isSwitch p.2 = true → ∀ kv ∈ o.m_options, p.2 ∉ kv.2.names) :
    ∃ o' abort, parse stod o (app :: argsOf pairs) = .ok (o', abort) ∧
      o'.m_options =
        withValues o.m_options (valuesAfter stod o.m_options (fun _ => .invalid) pairs) ∧
      o'.m_unusedArguments = switches pairs := by
  have hstart : Declared (o.start (app :: argsOf pairs)).m_options := h
  have hloop := parseLoop_pairs stod hstart hgiven hhelp hfree (fun _ => .invalid) [] []
  rw [List.append_nil, List.nil_append, run_start h] at hloop
  generalize hvals : valuesAfter stod o.m_options (fun _ => .invalid) pairs = vals at hloop ⊢
  have hvals' : valuesAfter stod (o.start (app :: argsOf pairs)).m_options (fun _ => .invalid)
      pairs = vals := hvals
  obtain ⟨b, hb⟩ := isAbortOnException_run hstart vals (switches pairs)
    ((withValues o.m_options vals).filterMap fun kv => mandatoryError kv.2)
  refine ⟨{ run (o.start (app :: argsOf pairs)) vals (switches pairs) with
    m_parseErrors := (withValues o.m_options vals).filterMap fun kv => mandatoryError kv.2 },
    some b, ?_, rfl, rfl⟩
  rw [parse, hloop, hvals']
  exact congrArg (fun abort => abort >>= fun a => Except.ok (_, some a)) hb

/-- A command line up to the help switch. -/
theorem parse_of_help (app : Bytes) {pre post : List (Bytes × Bytes)} {p : Bytes × Bytes}
    (hgiven : Given o.m_options pre) (hhelp : ∀ p ∈ pre, ¬ IsHelp p.1)
    (hfree : ∀ p ∈ pre, isSwitch p.2 = true → ∀ kv ∈ o.m_options, p.2 ∉ kv.2.names)
    (hp : IsHelp p.1) :
    ∃ o' abort, parse stod o (app :: argsOf (pre ++ p :: post)) = .ok (o', abort) ∧
      o'.m_options = withValues o.m_options
        (Function.update (valuesAfter stod o.m_options (fun _ => .invalid) pre) (ascii "help")
          (.ofVariant (.bool true))) ∧
      o'.m_unusedArguments = switches pre := by
  have hstart : Declared (o.start (app :: argsOf (pre ++ p :: post))).m_options := h
  have hloop := parseLoop_pairs stod hstart hgiven hhelp hfree (fun _ => .invalid) []
    (argsOf (p :: post))
  rw [run_start h, ← argsOf_append, argsOf_cons p, parseLoop_help stod hstart hp] at hloop
  refine ⟨{ run (o.start (app :: argsOf (pre ++ p :: post)))
    (Function.update (valuesAfter stod o.m_options (fun _ => .invalid) pre) (ascii "help")
      (.ofVariant (.bool true))) (switches pre) with m_isAppBreak := true }, none, ?_, rfl, rfl⟩
  rw [parse, hloop]
  rfl

/-- The option of the help switch. -/
theorem help_of_isHelp {kv : Bytes × CLIOption} (hkv : kv ∈ o.m_options) {arg : Bytes}
    (harg : IsHelp arg) (hname : arg ∈ kv.2.names) : kv.1 = ascii "help" ∧ kv.2.type = .Bool := by
  obtain ⟨opt, hopt, htype, hnames⟩ := h.help
  have hmem : arg ∈ opt.names := by
    rw [hnames]
    rcases harg with rfl | rfl
    · exact List.mem_cons_of_mem _ List.mem_cons_self
    · exact List.mem_cons_self
  rw [h.distinct kv hkv (ascii "help", opt) hopt arg hname hmem]
  exact ⟨rfl, htype⟩

/-- After the help switch its option has its value, and every other option the one that it had. -/
theorem find?_update_help (vals : Bytes → RpcValue) {hkv : Bytes × CLIOption}
    (hhelpkv : hkv ∈ o.m_options) {arg : Bytes} (harg : IsHelp arg)
    (hhelpname : arg ∈ hkv.2.names) :
    SortedMap.find? hkv.1 (withValues o.m_options
        (Function.update vals (ascii "help") (.ofVariant (.bool true)))) =
      some (hkv.2.setValue (.ofVariant (.bool true))) ∧
    ∀ kv ∈ o.m_options, arg ∉ kv.2.names →
      SortedMap.find? kv.1 (withValues o.m_options
          (Function.update vals (ascii "help") (.ofVariant (.bool true)))) =
        some (kv.2.setValue (vals kv.1)) := by
  have hkey := (help_of_isHelp h hhelpkv harg hhelpname).1
  constructor
  · rw [find?_withValues h.sorted _ hhelpkv, hkey, Function.update_self]
  · intro kv hkv' hnot
    have hne : kv.1 ≠ ascii "help" := by
      rw [← hkey]
      intro heq
      rw [h.key_inj hkv' hhelpkv heq] at hnot
      exact hnot hhelpname
    rw [find?_withValues h.sorted _ hkv', Function.update_of_ne hne]

omit h in
/-- A command line has no help switch, or it has a first one. -/
theorem exists_first_help (pairs : List (Bytes × Bytes)) :
    (∀ p ∈ pairs, ¬ IsHelp p.1) ∨
      ∃ pre p post, pairs = pre ++ p :: post ∧ (∀ q ∈ pre, ¬ IsHelp q.1) ∧ IsHelp p.1 := by
  cases hfound : pairs.find? fun p => decide (IsHelp p.1) with
  | none =>
    refine .inl fun p hp hhelp => ?_
    exact List.find?_eq_none.mp hfound p hp (decide_eq_true hhelp)
  | some p =>
    obtain ⟨hhelp, pre, post, heq, hpre⟩ := List.find?_eq_some_iff_append.mp hfound
    refine .inr ⟨pre, p, post, heq, fun q hq hq' => ?_, of_decide_eq_true hhelp⟩
    simpa [hq'] using hpre q hq

omit h in
theorem switches_eq_nil_iff (pairs : List (Bytes × Bytes)) :
    switches pairs = [] ↔ ∀ p ∈ pairs, isSwitch p.2 = false := by
  rw [switches, List.filter_eq_nil_iff, List.forall_mem_map]
  exact forall₂_congr fun p _ => iff_of_eq (Bool.not_eq_true _)

/-- Where the value of an option that is given is the one that is denoted, it is an `int`. -/
theorem uint_of_denotes {pairs : List (Bytes × Bytes)} (hgiven : Given o.m_options pairs)
    {p : Bytes × Bytes} (hp : p ∈ pairs) {kv : Bytes × CLIOption} (hkv : kv ∈ o.m_options)
    (hname : p.1 ∈ kv.2.names) {m : List (Bytes × CLIOption)} {v : RpcValue}
    (hfind : SortedMap.find? kv.1 m =
      some (kv.2.setValue (valuesAfter stod o.m_options (fun _ => .invalid) pairs kv.1)))
    (hv : SortedMap.find? kv.1 m = some (kv.2.setValue v)) (hval : Denotes stod kv.2.type p.2 v)
    (htype : kv.2.type = .UInt) : intNumber p.2 = uintNumber p.2 := by
  rw [hfind, Option.some.injEq] at hv
  have hvalue : valuesAfter stod o.m_options (fun _ => .invalid) pairs kv.1 = v :=
    congrArg CLIOption.value hv
  rw [← hvalue, valuesAfter_of_given stod h hkv hgiven hp hname,
    denotes_textValue_iff stod (h.typed kv hkv)] at hval
  exact hval htype

/-- An option that is given an `int` has the value that is denoted. -/
theorem denotes_valuesAfter {pairs : List (Bytes × Bytes)} (hgiven : Given o.m_options pairs)
    {p : Bytes × Bytes} (hp : p ∈ pairs) {kv : Bytes × CLIOption} (hkv : kv ∈ o.m_options)
    (hname : p.1 ∈ kv.2.names) (huint : kv.2.type = .UInt → intNumber p.2 = uintNumber p.2) :
    Denotes stod kv.2.type p.2 (valuesAfter stod o.m_options (fun _ => .invalid) pairs kv.1) := by
  rw [valuesAfter_of_given stod h hkv hgiven hp hname,
    denotes_textValue_iff stod (h.typed kv hkv)]
  exact huint

/-- After a command line without the help switch. -/
theorem parsesTo_iff_of_no_help (app : Bytes) {pairs : List (Bytes × Bytes)}
    (hgiven : Given o.m_options pairs) (hhelp : ∀ p ∈ pairs, ¬ IsHelp p.1)
    (hfree : ∀ p ∈ pairs, isSwitch p.2 = true → ∀ kv ∈ o.m_options, p.2 ∉ kv.2.names) :
    ParsesTo stod o app pairs ↔ Plain o.m_options pairs := by
  obtain ⟨o', abort, hparse, hoptions, hunused⟩ :=
    parse_of_no_help stod h app hgiven hhelp hfree
  have hfind : ∀ kv ∈ o.m_options, SortedMap.find? kv.1 o'.m_options =
      some (kv.2.setValue (valuesAfter stod o.m_options (fun _ => .invalid) pairs kv.1)) := by
    intro kv hkv
    rw [hoptions]
    exact find?_withValues h.sorted _ hkv
  constructor
  · rintro ⟨o'', abort', hparse', hunused', hvalues⟩
    rw [hparse, Except.ok.injEq, Prod.mk.injEq] at hparse'
    obtain ⟨rfl, rfl⟩ := hparse'
    refine ⟨?_, fun p hp hp' => absurd hp' (hhelp p hp), fun p hp kv hkv hname htype => ?_⟩
    · rw [← switches_eq_nil_iff, ← hunused, hunused']
    · obtain ⟨v, hv, hgiven', -⟩ := hvalues kv hkv
      exact uint_of_denotes stod h hgiven hp hkv hname (hfind kv hkv) hv (hgiven' p hp hname) htype
  · intro hplain
    refine ⟨o', abort, hparse, ?_, fun kv hkv => ⟨_, hfind kv hkv, fun p hp hname => ?_, ?_⟩⟩
    · rw [hunused, switches_eq_nil_iff]
      exact hplain.not_switch
    · exact denotes_valuesAfter stod h hgiven hp hkv hname (hplain.uint p hp kv hkv hname)
    · exact fun hnot => valuesAfter_of_not_given stod h hkv hgiven hnot _

/-- After a command line that ends with the help switch. -/
theorem parsesTo_iff_of_help_last (app : Bytes) {pre : List (Bytes × Bytes)} {p : Bytes × Bytes}
    (hgiven : Given o.m_options (pre ++ [p])) (hhelp : ∀ q ∈ pre, ¬ IsHelp q.1)
    (hfree : ∀ q ∈ pre, isSwitch q.2 = true → ∀ kv ∈ o.m_options, q.2 ∉ kv.2.names)
    (hp : IsHelp p.1) :
    ParsesTo stod o app (pre ++ [p]) ↔ Plain o.m_options (pre ++ [p]) := by
  obtain ⟨o', abort, hparse, hoptions, hunused⟩ :=
    @parse_of_help stod o h app pre [] p hgiven.left hhelp hfree hp
  obtain ⟨hkv, hhelpkv, hhelpname, -, hhelpint⟩ :=
    hgiven.declared p (List.mem_append_right _ List.mem_cons_self)
  have htype := (help_of_isHelp h hhelpkv hp hhelpname).2
  have hcross : ∀ q ∈ pre, ∀ kv ∈ o.m_options, q.1 ∈ kv.2.names → p.1 ∉ kv.2.names :=
    fun q hq => (List.pairwise_append.mp hgiven.distinct).2.2 q hq p List.mem_cons_self
  obtain ⟨hfindHelp, hfind⟩ := find?_update_help h
    (valuesAfter stod o.m_options (fun _ => .invalid) pre) hhelpkv hp hhelpname
  rw [← hoptions] at hfindHelp
  simp only [← hoptions] at hfind
  have hunique : ∀ kv ∈ o.m_options, p.1 ∈ kv.2.names → kv = hkv := fun kv hkv' hname =>
    h.distinct kv hkv' hkv hhelpkv p.1 hname hhelpname
  constructor
  · rintro ⟨o'', abort', hparse', hunused', hvalues⟩
    rw [hparse, Except.ok.injEq, Prod.mk.injEq] at hparse'
    obtain ⟨rfl, rfl⟩ := hparse'
    rw [hunused, switches_eq_nil_iff] at hunused'
    refine ⟨fun q hq => ?_, fun q hq hqhelp => ?_, fun q hq kv hkv' hname huint => ?_⟩
    · rcases List.mem_append.mp hq with hq | hq
      · exact hunused' q hq
      · rw [List.mem_singleton.mp hq, ← Bool.not_eq_true]
        intro hswitch
        rw [htype] at hhelpint
        cases (hhelpint hswitch).1
    · rcases List.mem_append.mp hq with hq | hq
      · exact absurd hqhelp (hhelp q hq)
      · rw [List.mem_singleton.mp hq, List.getLast?_concat]
        obtain ⟨v, hv, hgiven', -⟩ := hvalues hkv hhelpkv
        have hval := hgiven' p (List.mem_append_right _ List.mem_cons_self) hhelpname
        rw [hfindHelp, Option.some.injEq] at hv
        have htrue : RpcValue.ofVariant (.bool true) = v := congrArg CLIOption.value hv
        rw [← htrue, htype] at hval
        refine ⟨rfl, ?_⟩
        simpa [Denotes, RpcValue.ofVariant] using hval.symm
    · rcases List.mem_append.mp hq with hq | hq
      · obtain ⟨v, hv, hgiven', -⟩ := hvalues kv hkv'
        have hval := hgiven' q (List.mem_append_left _ hq) hname
        exact uint_of_denotes stod h hgiven.left hq hkv' hname
          (hfind kv hkv' (hcross q hq kv hkv' hname)) hv hval huint
      · rw [List.mem_singleton.mp hq] at hname
        rw [hunique kv hkv' hname, htype] at huint
        cases huint
  · intro hplain
    have hlast := (hplain.help_last p (List.mem_append_right _ List.mem_cons_self) hp).2
    refine ⟨o', abort, hparse, ?_, fun kv hkv' => ?_⟩
    · rw [hunused, switches_eq_nil_iff]
      exact fun q hq => hplain.not_switch q (List.mem_append_left _ hq)
    · by_cases hname : p.1 ∈ kv.2.names
      · rw [hunique kv hkv' hname]
        refine ⟨_, hfindHelp, fun q hq hqname => ?_, fun hnot => ?_⟩
        · rcases List.mem_append.mp hq with hq | hq
          · exact absurd hhelpname (hcross q hq hkv hhelpkv hqname)
          · rw [List.mem_singleton.mp hq, htype, Denotes, hlast]
        · exact absurd hhelpname (hnot p (List.mem_append_right _ List.mem_cons_self))
      · refine ⟨_, hfind kv hkv' hname, fun q hq hqname => ?_, fun hnot => ?_⟩
        · rcases List.mem_append.mp hq with hq' | hq'
          · exact denotes_valuesAfter stod h hgiven.left hq' hkv' hqname
              (hplain.uint q hq kv hkv' hqname)
          · exact absurd (List.mem_singleton.mp hq' ▸ hqname) hname
        · exact valuesAfter_of_not_given stod h hkv' hgiven.left
            (fun q hq => hnot q (List.mem_append_left _ hq)) _

/-- After a command line that goes on behind the help switch. -/
theorem not_parsesTo_of_help (app : Bytes) {pre post : List (Bytes × Bytes)}
    {p q : Bytes × Bytes} (hgiven : Given o.m_options (pre ++ p :: q :: post))
    (hhelp : ∀ q ∈ pre, ¬ IsHelp q.1)
    (hfree : ∀ q ∈ pre, isSwitch q.2 = true → ∀ kv ∈ o.m_options, q.2 ∉ kv.2.names)
    (hp : IsHelp p.1) : ¬ ParsesTo stod o app (pre ++ p :: q :: post) := by
  rintro ⟨o'', abort', hparse', -, hvalues⟩
  obtain ⟨o', abort, hparse, hoptions, -⟩ :=
    parse_of_help stod h app hgiven.left hhelp hfree hp
  rw [hparse, Except.ok.injEq, Prod.mk.injEq] at hparse'
  obtain ⟨rfl, rfl⟩ := hparse'
  obtain ⟨hkv, hhelpkv, hhelpname, -⟩ :=
    hgiven.declared p (List.mem_append_right _ List.mem_cons_self)
  obtain ⟨kv, hkv', hname, -⟩ := hgiven.declared q
    (List.mem_append_right _ (List.mem_cons_of_mem _ List.mem_cons_self))
  obtain ⟨hpre, htail, hcross⟩ := List.pairwise_append.mp hgiven.distinct
  have hother : p.1 ∉ kv.2.names := fun hname' =>
    List.rel_of_pairwise_cons htail List.mem_cons_self kv hkv' hname' hname
  have hnot : ∀ r ∈ pre, r.1 ∉ kv.2.names := fun r hr hr' =>
    hcross r hr q (List.mem_cons_of_mem _ List.mem_cons_self) kv hkv' hr' hname
  obtain ⟨v, hv, hgiven', -⟩ := hvalues kv hkv'
  have hval := hgiven' q (List.mem_append_right _ (List.mem_cons_of_mem _ List.mem_cons_self)) hname
  rw [hoptions, (find?_update_help h _ hhelpkv hp hhelpname).2 kv hkv' hother,
    valuesAfter_of_not_given stod h hkv' hgiven.left hnot, Option.some.injEq] at hv
  have hinvalid : RpcValue.invalid = v := congrArg CLIOption.value hv
  rw [← hinvalid] at hval
  exact not_denotes_invalid stod hval

/-- Apart from a negative number that is the name of an option itself, the pairs are parsed as
they are given if and only if they are plain. -/
theorem parsesTo_iff_of_free (app : Bytes) {pairs : List (Bytes × Bytes)}
    (hgiven : Given o.m_options pairs)
    (hfree : ∀ p ∈ pairs, isSwitch p.2 = true → ∀ kv ∈ o.m_options, p.2 ∉ kv.2.names) :
    ParsesTo stod o app pairs ↔ Plain o.m_options pairs := by
  rcases exists_first_help pairs with hhelp | ⟨pre, p, post, rfl, hpre, hp⟩
  · exact parsesTo_iff_of_no_help stod h app hgiven hhelp hfree
  · have hfree' : ∀ q ∈ pre, isSwitch q.2 = true → ∀ kv ∈ o.m_options, q.2 ∉ kv.2.names :=
      fun q hq => hfree q (List.mem_append_left _ hq)
    cases post with
    | nil => exact parsesTo_iff_of_help_last stod h app hgiven hpre hfree' hp
    | cons q post =>
      refine iff_of_false (not_parsesTo_of_help stod h app hgiven hpre hfree' hp) fun hplain => ?_
      have hlast := (hplain.help_last p (List.mem_append_right _ List.mem_cons_self) hp).1
      rw [List.getLast?_append_cons, List.getLast?_cons_cons] at hlast
      obtain ⟨kv, hkv, hname, -⟩ :=
        hgiven.declared p (List.mem_append_right _ List.mem_cons_self)
      have htail := (List.pairwise_append.mp hgiven.distinct).2.1
      exact List.rel_of_pairwise_cons htail (List.mem_of_getLast? hlast) kv hkv hname hname

/-- Plain pairs are parsed as they are given; and only they are, unless a negative number is
the name of an option itself. -/
theorem parses_iff_plain (app : Bytes) (pairs : List (Bytes × Bytes))
    (hgiven : Given o.m_options pairs) :
    (Plain o.m_options pairs → ParsesTo stod o app pairs) ∧
      (ParsesTo stod o app pairs → Plain o.m_options pairs ∨
        ∃ p ∈ pairs, isSwitch p.2 = true ∧ ∃ kv ∈ o.m_options, p.2 ∈ kv.2.names) := by
  constructor
  · intro hplain
    refine (parsesTo_iff_of_free stod h app hgiven fun p hp hswitch => ?_).mpr hplain
    rw [hplain.not_switch p hp] at hswitch
    cases hswitch
  · intro hparses
    by_cases hnamed : ∃ p ∈ pairs, isSwitch p.2 = true ∧ ∃ kv ∈ o.m_options, p.2 ∈ kv.2.names
    · exact .inr hnamed
    · refine .inl ((parsesTo_iff_of_free stod h app hgiven ?_).mp hparses)
      exact fun p hp hswitch kv hkv hname => hnamed ⟨p, hp, hswitch, kv, hkv, hname⟩

end Property

/-- Distinct names of all options. -/
theorem distinct_of_nodup {m : List (Bytes × CLIOption)}
    (h : (m.flatMap (·.2.names)).Nodup) :
    ∀ kv ∈ m, ∀ kv' ∈ m, ∀ name ∈ kv.2.names, name ∈ kv'.2.names → kv = kv' := by
  intro kv hkv kv' hkv' name hname hname'
  by_contra hne
  have hsymm : Std.Symm
      (Function.onFun List.Disjoint fun x : Bytes × CLIOption => x.2.names) :=
    ⟨fun _ _ hdisjoint => hdisjoint.symm⟩
  exact (List.nodup_flatMap.mp h).2.forall hkv hkv' hne hname hname'

/-- The options of the constructor, a port and a name. -/
def sampleOptions : CLIOptions where
  m_options := [
    (ascii "abortOnException", ⟨.Bool, [ascii "--abort-on-exception"], .invalid, .invalid, false⟩),
    (ascii "help", ⟨.Bool, [ascii "-h", ascii "--help"], .invalid, .invalid, false⟩),
    (ascii "name", ⟨.String, [ascii "--name"], .invalid, .invalid, false⟩),
    (ascii "port", ⟨.Int, [ascii "-p", ascii "--port"], .invalid, .invalid, false⟩)]
  m_unusedArguments := []
  m_parseErrors := []
  m_isAppBreak := false
  m_allArgs := []

theorem declared_sampleOptions : Declared sampleOptions.m_options where
  sorted := by simp only [SortedMap.Sorted]; decide
  typed := by decide
  unset kv hkv := by
    fin_cases hkv <;> rfl
  distinct := distinct_of_nodup (by decide)
  help := ⟨_, List.mem_cons_of_mem _ List.mem_cons_self, rfl, rfl⟩
  abort := ⟨_, List.mem_cons_self⟩

theorem given_sample : Given sampleOptions.m_options
    [(ascii "--name", ascii "ctl"), (ascii "-p", ascii "3755")] where
  declared := by decide
  distinct := by decide

theorem parses_sample : ParsesTo (fun _ => none) sampleOptions (ascii "app")
    [(ascii "--name", ascii "ctl"), (ascii "-p", ascii "3755")] := by
  refine (parses_iff_plain (fun _ => none) declared_sampleOptions (ascii "app") _ given_sample).1 ?_
  exact ⟨by decide, by decide, by decide⟩

/-- A negative port is set, and reported as unused as well. -/
theorem not_parses_negative : ¬ ∀ (stod : Bytes → Option (UInt64 × Nat)) (o : CLIOptions)
    (app : Bytes) (pairs : List (Bytes × Bytes)), Declared o.m_options →
    Given o.m_options pairs → ParsesTo stod o app pairs := by
  intro h
  have hgiven : Given sampleOptions.m_options [(ascii "-p", ascii "-5")] :=
    ⟨by decide +kernel, List.pairwise_singleton _ _⟩
  have hparses := h (fun _ => none) sampleOptions (ascii "app") _ declared_sampleOptions hgiven
  rw [parsesTo_iff_of_free _ declared_sampleOptions _ hgiven (by decide)] at hparses
  exact absurd (hparses.not_switch _ List.mem_cons_self) (by decide)

end LibShv.CLIOptions
