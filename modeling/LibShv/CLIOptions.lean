import LibShv.CponWriter
import LibShv.LocalFSNode
import LibShv.ShvJournalFile

/-!
# LibShv.CLIOptions

Options of the command line (`clioptions.cpp`). An argument that is the name of an option
takes the next one as its value, unless that starts with a minus sign.
-/

namespace LibShv

/-- `RpcValue::Type`. -/
inductive RpcValueType where
  | Invalid
  | Null
  | UInt
  | Int
  | Double
  | Bool
  | Blob
  | String
  | DateTime
  | List
  | Map
  | IMap
  | Decimal
deriving DecidableEq

/-- `RpcValue::fromType`. -/
def RpcValue.fromType : RpcValueType → RpcValue
  | .Invalid => .invalid
  | .Null => .ofVariant .null
  | .UInt => .ofVariant (.uint 0)
  | .Int => .ofVariant (.int 0)
  | .Double => .ofVariant (.double 0)
  | .Bool => .ofVariant (.bool false)
  | .Blob => .ofVariant (.blob [])
  | .String => .ofVariant (.string [])
  | .DateTime => .ofVariant (.dateTime ⟨0, 0⟩)
  | .List => .ofVariant (.list [])
  | .Map => .ofVariant (.map [])
  | .IMap => .ofVariant (.imap [])
  | .Decimal => .ofVariant (.decimal ⟨0, 0⟩)

/-! ## texts -/

/-- `std::tolower` of the C locale. -/
def tolower (b : UInt8) : UInt8 := if 65 ≤ b ∧ b ≤ 90 then b + 32 else b

/-- `utils::equal`, case insensitive. -/
def equalCaseInsensitive (a b : Bytes) : Bool := a.map tolower = b.map tolower

/-- `utils::toDouble`: `std::stod` gives the number and where it ends, or throws. -/
def textToDouble (stod : Bytes → Option (UInt64 × Nat)) (str : Bytes) : UInt64 :=
  match stod str with
  | some (ret, pos) => if pos = str.length then ret else 0
  | none => 0

/-! ## an option -/

abbrev StringList := List Bytes

/-- `CLIOptions::Option`. -/
structure CLIOption where
  type : RpcValueType
  names : StringList
  value : RpcValue
  defaultValue : RpcValue
  mandatory : Bool

namespace CLIOption

def isValid (opt : CLIOption) : Bool := opt.type ≠ .Invalid

def setValue (opt : CLIOption) (val : RpcValue) : CLIOption := { opt with value := val }

/-- What a text makes of an option of type `Bool`. -/
def textToBool (val_str : Bytes) : Bool :=
  if val_str = [] then true
  else match textToInt val_str with
    | some n => n ≠ 0
    | none => !([ascii "n", ascii "no", ascii "false"].any (equalCaseInsensitive val_str))

/-- The value that `setValueString` sets; an option without a type is not set. -/
def valueOfString (stod : Bytes → Option (UInt64 × Nat)) (val_str : Bytes) :
    RpcValueType → Option RpcValue
  | .Invalid => none
  | .Bool => some (.ofVariant (.bool (textToBool val_str)))
  | .Int | .UInt => some (.ofVariant (.int ((textToInt val_str).getD 0).toInt64))
  | .Double => some (.ofVariant (.double (textToDouble stod val_str)))
  | _ => some (.ofVariant (.string val_str))

/-- `setValueString`. -/
def setValueString (stod : Bytes → Option (UInt64 × Nat)) (opt : CLIOption) (val_str : Bytes) :
    CLIOption :=
  match valueOfString stod val_str opt.type with
  | some val => opt.setValue val
  | none => opt

end CLIOption

/-! ## the options -/

/-- `CLIOptions`; the arguments and the index of the next one are `parseLoop`'s list. -/
structure CLIOptions where
  m_options : List (Bytes × CLIOption)
  m_unusedArguments : StringList
  m_parseErrors : StringList
  m_isAppBreak : Bool
  m_allArgs : StringList

namespace CLIOptions

/-- An argument that starts with a minus sign. -/
def isSwitch (arg : Bytes) : Bool := arg.head? = some 45

/-- The switch that stops the parsing. -/
def IsHelp (arg : Bytes) : Prop := arg = ascii "--help" ∨ arg = ascii "-h"

instance (arg : Bytes) : Decidable (IsHelp arg) := inferInstanceAs (Decidable (_ ∨ _))

/-- `m_options[key] = opt`. -/
def setOption (o : CLIOptions) (key : Bytes) (opt : CLIOption) : CLIOptions :=
  { o with m_options := SortedMap.insert key opt o.m_options }

/-- `value_helper`, which throws if there is no such option. -/
def valueHelper (o : CLIOptions) (name : Bytes) : Except Bytes RpcValue :=
  match SortedMap.find? name o.m_options with
  | none => .error (ascii "Key '" ++ name ++ ascii "' not found.")
  | some opt =>
    if !opt.isValid then .ok .invalid
    else
      let ret := if opt.value.isValid then opt.value else opt.defaultValue
      .ok (if ret.isValid then ret else .fromType opt.type)

/-- `setValue`. -/
def setValue (o : CLIOptions) (name : Bytes) (val : RpcValue) : Except Bytes CLIOptions :=
  let msg := ascii "setValue():" ++ CponWriter.toCpon [] val ++ ascii " Key '" ++ name ++
    ascii "' not found."
  match SortedMap.find? name o.m_options with
  | none => .error msg
  | some opt => if opt.isValid then .ok (o.setOption name (opt.setValue val)) else .error msg

def setHelp (o : CLIOptions) (val : Bool) : Except Bytes CLIOptions :=
  o.setValue (ascii "help") (.ofVariant (.bool val))

def isAbortOnException (o : CLIOptions) : Except Bytes Bool :=
  (·.toBool) <$> o.valueHelper (ascii "abortOnException")

/-- The first option that has the name. -/
def named (m_options : List (Bytes × CLIOption)) (arg : Bytes) : Option (Bytes × CLIOption) :=
  m_options.find? fun kv => kv.2.names.contains arg

/-- The error of an option that has to be set. -/
def mandatoryError (opt : CLIOption) : Option Bytes :=
  match opt.names with
  | name :: _ =>
    if opt.mandatory && !opt.value.isValid then
      some (ascii "Mandatory option '" ++ name ++ ascii "' not set.")
    else none
  | [] => none

section Parse

variable (stod : Bytes → Option (UInt64 × Nat))

/-- The loop of `parse` over the arguments that are not taken yet. -/
def parseLoop : StringList → CLIOptions → Except Bytes CLIOptions
  | [], o => .ok o
  | arg :: rest, o =>
    if IsHelp arg then do
      return { ← o.setHelp true with m_isAppBreak := true }
    else match named o.m_options arg with
      | none =>
        if isSwitch arg then
          parseLoop rest { o with m_unusedArguments := o.m_unusedArguments ++ [arg] }
        else parseLoop rest o
      | some (key, opt) =>
        match rest with
        | [] => .ok (o.setOption key (opt.setValueString stod []))
        | next :: rest' =>
          if isSwitch next then
            -- it is looked at and not taken
            let val_str := if opt.type = .Int then next else []
            parseLoop (next :: rest') (o.setOption key (opt.setValueString stod val_str))
          else parseLoop rest' (o.setOption key (opt.setValueString stod next))

/-- What `parse` starts from. -/
def start (o : CLIOptions) (cmd_line_args : StringList) : CLIOptions :=
  { o with
    m_isAppBreak := false
    m_unusedArguments := []
    m_parseErrors := []
    m_allArgs := cmd_line_args }

/-- `parse`, and what it gives to `setAbortOnException` unless it stops at the help switch. -/
def parse (o : CLIOptions) : StringList → Except Bytes (CLIOptions × Option Bool)
  | [] => .error (ascii "CLI args must contain at least an application name.")
  | app :: args => do
    let o ← parseLoop stod args (o.start (app :: args))
    if o.m_isAppBreak then return (o, none)
    let o := { o with m_parseErrors := o.m_options.filterMap fun kv => mandatoryError kv.2 }
    return (o, some (← o.isAbortOnException))

end Parse

end CLIOptions

end LibShv
