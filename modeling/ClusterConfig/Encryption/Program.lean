import ClusterConfig.Encryption.Decryptor
import ClusterConfig.Text.Blank
import ClusterConfig.Text.Digits
import ClusterConfig.Text.Lines

/-!
# Programs as decryptors

A program reads the encrypted document and writes the plain one. It is a filter of a few commands, by
its name, or a script of such commands, one on each line. Output goes to the result, to the report
or nowhere.
-/

set_option autoImplicit false

namespace ClusterConfig.Encryption

/-- Where a command writes. -/
inductive Channel where
  | result
  | report
  | nothing
deriving DecidableEq

structure Command where
  words : List String
  channel : Channel

/-- A run of a program: what is left to read, what was written and how it ended. -/
structure Run where
  input : ByteArray
  result : ByteArray
  report : ByteArray
  status : Nat
  ended : Bool

namespace Run

def ofInput (input : ByteArray) : Run := ⟨input, .empty, .empty, 0, false⟩

def write (run : Run) (channel : Channel) (bytes : ByteArray) : Run :=
  match channel with
  | .result => { run with result := run.result ++ bytes }
  | .report => { run with report := run.report ++ bytes }
  | .nothing => run

def writeText (run : Run) (channel : Channel) (text : String) : Run :=
  run.write channel text.toUTF8

def fail (run : Run) (status : Nat) (text : String) : Run :=
  { run.writeText .report (text ++ "\n") with status }

end Run

namespace Script

/-! ## Words -/

/-- The arguments that a `$` and the character after it stand for. -/
def argument? (arguments : List String) (c : Char) : Option String :=
  if c = '*' || c = '@' then some (" ".intercalate arguments)
  else if c = '#' then some (toString arguments.length)
  else if '1' ≤ c && c ≤ '9' then some (arguments.getD (c.toNat - '1'.toNat) "")
  else none

inductive Quote where
  | none
  | single
  | double

/-- The words of a line. `word` is the word begun, if there is one, backwards. -/
def wordsFrom (arguments : List String) :
    Quote → (word : Option (List Char)) → List Char → List String
  | _, word, [] => (word.map fun w => String.ofList w.reverse).toList
  | .none, word, '\'' :: rest => wordsFrom arguments .single (some (word.getD [])) rest
  | .none, word, '"' :: rest => wordsFrom arguments .double (some (word.getD [])) rest
  | .single, word, '\'' :: rest => wordsFrom arguments .none word rest
  | .double, word, '"' :: rest => wordsFrom arguments .none word rest
  | .single, word, c :: rest => wordsFrom arguments .single (word.map (c :: ·)) rest
  | quote, word, '$' :: c :: rest =>
    match argument? arguments c with
    | some text => wordsFrom arguments quote (some (text.toList.reverse ++ word.getD [])) rest
    | none => wordsFrom arguments quote (some (c :: '$' :: word.getD [])) rest
  | quote, word, '\\' :: c :: rest => wordsFrom arguments quote (some (c :: word.getD [])) rest
  | .none, word, c :: rest =>
    if c = ' ' || c = '\t' then
      (word.map fun w => String.ofList w.reverse).toList ++ wordsFrom arguments .none none rest
    else if c = '#' && word.isNone then []
    else wordsFrom arguments .none (some (c :: word.getD [])) rest
  | .double, word, c :: rest => wordsFrom arguments .double (word.map (c :: ·)) rest

/-- Takes the redirections out of the words of a command. -/
def redirected : List String → Command
  | [] => ⟨[], .result⟩
  | ">" :: "/dev/null" :: rest => { redirected rest with channel := .nothing }
  | ">/dev/null" :: rest => { redirected rest with channel := .nothing }
  | ">&2" :: rest => { redirected rest with channel := .report }
  | "1>&2" :: rest => { redirected rest with channel := .report }
  | word :: rest => { redirected rest with words := word :: (redirected rest).words }

def command (arguments : List String) (line : List Char) : Command :=
  redirected (wordsFrom arguments .none none line)

/-! ## Commands -/

/-- Replaces the first occurrence, or every one, of a text. -/
def replace (old new : List Char) (all : Bool) : Nat → List Char → List Char
  | 0, text => text
  | fuel + 1, text =>
    match Text.afterStart? old text, text with
    | some rest, _ => new ++ (if all && !old.isEmpty then replace old new all fuel rest else rest)
    | none, [] => []
    | none, c :: rest => c :: replace old new all fuel rest

/-- A replacement `s/old/new/flags`; the old text may be tied to the start or the end of a line. -/
def substitute (old new : List Char) (all : Bool) (line : List Char) : List Char :=
  match old, old.getLast? with
  | '^' :: old, _ =>
    match Text.afterStart? old line with
    | some rest => new ++ rest
    | none => line
  | _, some '$' =>
    match Text.beforeEnd? old.dropLast line with
    | some kept => kept ++ new
    | none => line
  | _, _ => replace old new all (line.length + 1) line

def editLine? (rule : List Char) : Option (List Char → List Char) :=
  match rule with
  | 's' :: mark :: rest =>
    match Text.splitAll mark rest with
    | [old, new, flags] => some (substitute old new (flags.contains 'g'))
    | _ => none
  | _ => none

def edit (rule : List Char) (input : ByteArray) : Option ByteArray := do
  let text ← String.fromUTF8? input
  let editLine ← editLine? rule
  let lines := (Text.rawLines text.toList).map fun line =>
    match line.getLast? with
    | some '\n' => editLine line.dropLast ++ ['\n']
    | _ => editLine line
  some (String.ofList lines.flatten).toUTF8

/-- The contents of files one after the other; a dash is the input. -/
def concatenate (files : FileTree) (channel : Channel) : List String → Run → Run
  | [], run => run
  | path :: rest, run =>
    if path = "-" || path = "/dev/stdin" then
      concatenate files channel rest { run.write channel run.input with input := .empty }
    else
      match files.read path with
      | .ok content => concatenate files channel rest (run.write channel content)
      | .error _ =>
        concatenate files channel rest
          (run.fail 1 ("cat: " ++ path ++ ": No such file or directory"))

/-- The name of a command without the directory that holds it. -/
def commandName (word : String) : String :=
  let chars := word.toList
  match Text.afterStart? "/bin/".toList chars, Text.afterStart? "/usr/bin/".toList chars with
  | some name, _ => String.ofList name
  | none, some name => String.ofList name
  | none, none => word

def commandNames : List String := ["cat", "echo", "sed", "exit", "true", "false", ":"]

def perform (files : FileTree) (command : Command) (run : Run) : Run :=
  let run := { run with status := 0 }
  match command.words.map commandName, command.words with
  | "cat" :: _, _ :: [] => concatenate files command.channel ["-"] run
  | "cat" :: _, _ :: paths => concatenate files command.channel paths run
  | "echo" :: _, _ :: words =>
    match words with
    | "-n" :: words => run.writeText command.channel (" ".intercalate words)
    | _ => run.writeText command.channel (" ".intercalate words ++ "\n")
  | "sed" :: _, _ :: rules =>
    match edit ((rules.filter (· ≠ "-e")).headD "").toList run.input with
    | some output => { run.write command.channel output with input := .empty }
    | none => run.fail 1 "sed: unsupported rule"
  | "exit" :: _, _ :: status :: _ =>
    { run with status := (Text.unsigned? 255 status.toList).getD 2, ended := true }
  | "exit" :: _, _ => { run with ended := true }
  | "false" :: _, _ => { run with status := 1 }
  | "true" :: _, _ => run
  | ":" :: _, _ => run
  | name :: _, _ => run.fail 127 (name ++ ": not found")
  | [], _ => run

def performAll (files : FileTree) (arguments : List String) : List (List Char) → Run → Run
  | [], run => run
  | line :: rest, run =>
    match command arguments line with
    | ⟨[], _⟩ => performAll files arguments rest run
    | command =>
      let run := perform files command run
      if run.ended then run else performAll files arguments rest run

end Script

/-- The lines of a script; a program that is none may not be started. -/
def scriptLines? (content : ByteArray) : Option (List (List Char)) := do
  let text ← String.fromUTF8? content
  match text.toList with
  | '#' :: '!' :: _ => some (Text.lines text.toList)
  | _ => none

/-- Starts a program with arguments and an input. -/
def start (files : FileTree) (program : String) (arguments : List String) (input : ByteArray) :
    Except FileError Run :=
  let name := Script.commandName program
  if Script.commandNames.contains name then
    .ok (Script.perform files ⟨name :: arguments, .result⟩ (.ofInput input))
  else if !program.toList.contains '/' then .error .notFound
  else
    match files.read program with
    | .error .isADirectory => .error .permissionDenied
    | .error reason => .error reason
    | .ok content =>
      match scriptLines? content with
      | none => .error .permissionDenied
      | some lines => .ok (Script.performAll files arguments lines (.ofInput input))

/-- How a program is asked for the plain document on its input. -/
def decryptArguments (format : Format) : List String :=
  ["--decrypt", "--input-type", format.name, "--output-type", format.name, "/dev/stdin"]

/-- Runs a program on each encrypted document. -/
def Decryptor.ofProgram (files : FileTree) (program : String) : Decryptor := fun content format =>
  match start files program (decryptArguments format) content with
  | .error reason => .error (.spawn program reason)
  | .ok run =>
    if run.status = 0 then .ok run.result
    else .error (.failed program run.status (Text.trim ((String.fromUTF8? run.report).getD "")))

end ClusterConfig.Encryption
