import ClusterConfig.Network.DnsName

/-!
# Labels, annotations and taints

A key is a name, or a lower case domain name, a slash and a name. A label value is empty or has
the form of a name. A taint is a value, possibly empty, a colon and one of three effects.
-/

set_option autoImplicit false

namespace ClusterConfig.Labels

/-- Why a key, value or taint is refused. -/
inductive LabelError where
  | emptyKey
  | nestedPrefix
  | invalidPrefix (part : String)
  | invalidName (name : String)
  | invalidValue (value : String)
  | invalidTaint (value : String)
deriving DecidableEq

def nameRule : String :=
  "must be at most 63 alphanumeric characters, '-', '_' or '.', starting and ending with an " ++
      "alphanumeric character"

def effects : List String := ["NoSchedule", "PreferNoSchedule", "NoExecute"]

namespace LabelError

def message : LabelError → String
  | .emptyKey => "key cannot be empty"
  | .nestedPrefix => "key prefixes cannot be nested, only use a single slash"
  | .invalidPrefix part =>
    "key prefix " ++ Text.quoted part ++
      " must be a lower case DNS subdomain of at most 253 characters"
  | .invalidName name => "key name " ++ Text.quoted name ++ " " ++ nameRule
  | .invalidValue value => "value " ++ Text.quoted value ++ " " ++ nameRule
  | .invalidTaint value =>
    "taint " ++ Text.quoted value ++ " must have the format [VALUE]:EFFECT with EFFECT one of [" ++
      ", ".intercalate (effects.map Text.quoted) ++ "]"

end LabelError

def isInner (c : Char) : Bool := c.isAlphanum || c = '-' || c = '_' || c = '.'

/-- Whether a text starts and ends with a letter or digit and has only name characters. -/
def isName (s : List Char) : Bool :=
  match s with
  | [] => false
  | c :: rest =>
    c.isAlphanum && rest.all isInner && ((c :: rest).getLast?.map Char.isAlphanum).getD false

def checkPrefix (part : List Char) : Except LabelError Unit :=
  if !part.isEmpty && Text.byteCount part ≤ 253 &&
      DnsName.isName DnsName.isLowerAlnum false part then .ok ()
  else .error (.invalidPrefix (String.ofList part))

def checkName (name : List Char) : Except LabelError Unit :=
  if Text.byteCount name ≤ 63 && isName name then .ok ()
  else .error (.invalidName (String.ofList name))

/-- Checks the key of a label, annotation or taint; blanks around it are ignored. -/
def checkKey (key : String) : Except LabelError Unit :=
  let key := Text.trimChars key.toList
  if key.isEmpty then .error .emptyKey
  else
    match Text.splitAll '/' key with
    | [name] => checkName name
    | [part, name] => do checkPrefix part; checkName name
    | _ => .error .nestedPrefix

def checkValue (value : String) : Except LabelError Unit :=
  let s := value.toList
  if s.isEmpty || (Text.byteCount s ≤ 63 && isName s) then .ok () else .error (.invalidValue value)

/-- The parts before and after the last occurrence of a character. -/
def splitLast? (mark : Char) (s : List Char) : Option (List Char × List Char) :=
  (Text.splitFirst? mark s.reverse).map fun split => (split.2.reverse, split.1.reverse)

def checkTaint (taint : String) : Except LabelError Unit :=
  match splitLast? ':' taint.toList with
  | none => .error (.invalidTaint taint)
  | some (value, effect) =>
    if effects.contains (String.ofList effect) then checkValue (String.ofList value)
    else .error (.invalidTaint taint)

end ClusterConfig.Labels
