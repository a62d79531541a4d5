import PlsqlAudit.File.Tree
import PlsqlAudit.Ignore.Rules

/-!
# The ignore rules of a user

A user may have rules for all projects.  The settings of the user say in which file
they are: the first line `excludesfile = path` counts, whatever section it is in.
The settings are in the file that a variable names or, where there is no such
variable, in up to two files in the user's directories.  Where no settings name a
file, there is a usual place for it.
-/

namespace PlsqlAudit.Ignore

/-- Blanks in settings; line breaks are among them. -/
def isSettingsBlank (c : Char) : Bool := c == ' ' || ('\t' ≤ c && c ≤ '\r')

/-- Blanks inside a line of settings. -/
def isSettingsGap (c : Char) : Bool := isSettingsBlank c && c ≠ '\n'

/-- True when nothing but blanks is left of a line. -/
def isLineEnd (cs : List Char) : Bool :=
  match cs.dropWhile isSettingsGap with
  | [] => true
  | c :: _ => c == '\n'

/-- True when nothing but blanks and a closing quote is left of a line. -/
def closesValue (cs : List Char) : Bool :=
  isLineEnd cs ||
    match cs.dropWhile isSettingsGap with
    | '"' :: rest => isLineEnd rest
    | _ => false

/-- The shortest run of characters up to where the line may end. -/
def settingValue? (cs : List Char) : Option (List Char) :=
  let run := cs.takeWhile fun c => !isSettingsBlank c
  (List.range run.length).findSome? fun n =>
    if closesValue (cs.drop (n + 1)) then some (cs.take (n + 1)) else none

/-- The text after a word at its front, which may be written in letters of either
case. -/
def afterWord? (word : String) (cs : List Char) : Option (List Char) :=
  if (cs.take word.length).map Char.toLower == word.toList then some (cs.drop word.length) else none

/-- The path that is named by the setting at the front of a text.  There may be line
breaks wherever there may be blanks. -/
def settingAt? (cs : List Char) : Option (List Char) := do
  let rest ← afterWord? "excludesfile" (cs.dropWhile isSettingsBlank)
  match rest.dropWhile isSettingsBlank with
  | '=' :: rest =>
    let rest := rest.dropWhile isSettingsBlank
    let quoted := match rest with
      | '"' :: inner => settingValue? (inner.dropWhile isSettingsBlank)
      | _ => none
    quoted <|> settingValue? rest
  | _ => none

/-- What is left of a text from the start of each of its lines. -/
def fromLineStarts (atStart : Bool) : List Char → List (List Char)
  | [] => if atStart then [[]] else []
  | c :: rest =>
    let later := fromLineStarts (c == '\n') rest
    if atStart then (c :: rest) :: later else later

/-- The path that settings name.  They are read byte by byte. -/
def settingIn? (settings : ByteArray) : Option String := do
  let bytes := settings.data.toList.map fun b => Char.ofNat b.toNat
  let value ← (fromLineStarts true bytes).findSome? settingAt?
  String.fromUTF8? ⟨(value.map fun c => c.toNat.toUInt8).toArray⟩

/-- The directory of the user. -/
def userHome? (environment : Environment) : Option String :=
  (environment "HOME").filter fun path => !path.isEmpty

/-- The directory of the user's settings. -/
def userSettings? (environment : Environment) : Option String :=
  (environment "XDG_CONFIG_HOME").filter (fun path => !path.isEmpty) <|>
    (userHome? environment).map (Path.join · ".config")

/-- The files with the user's settings, the one that counts first in front. -/
def settingsFiles (environment : Environment) : List String :=
  match environment "GIT_CONFIG_GLOBAL" with
  | some path => [path]
  | none =>
    ((userHome? environment).map (Path.join · ".gitconfig")).toList ++
      ((userSettings? environment).map (Path.join · "git/config")).toList

/-- A path where each tilde stands for the directory of the user. -/
def expandTilde (environment : Environment) (path : String) : String :=
  match userHome? environment with
  | none => path
  | some home =>
    String.ofList (path.toList.flatMap fun c => if c = '~' then home.toList else [c])

/-- The file with the rules of the user. -/
def userRulesPath? (files : Files) (environment : Environment) : Option String :=
  let named := (settingsFiles environment).findSome? fun path =>
    (files.content? path).bind settingIn?
  named.map (expandTilde environment) <|>
    (userSettings? environment).map (Path.join · "git/ignore")

/-- The rules of the user. -/
def userRules (files : Files) (environment : Environment) : List Rule :=
  match (userRulesPath? files environment).bind files.content? with
  | some content => rulesOf content
  | none => []

end PlsqlAudit.Ignore
