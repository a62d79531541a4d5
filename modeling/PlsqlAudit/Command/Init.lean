import PlsqlAudit.Command.Outcome

/-!
# Writing a first configuration
-/

namespace PlsqlAudit.Command

/-- The configuration that a project starts with. -/
def template : String :=
  "# plsql-guard configuration\n" ++
  "\n" ++
  "[sql_injection]\n" ++
  "# Report parameters reaching EXECUTE IMMEDIATE / OPEN ... FOR (G-9501)\n" ++
  "enabled = true\n" ++
  "# Calls into these packages count as assertions, e.g. sys.dbms_assert.enquote_name(p)\n" ++
  "sanitizer_packages = [\"dbms_assert\", \"ut_utils\"]\n" ++
  "\n" ++
  "[exclude]\n" ++
  "# Paths relative to the analyzed root; \"dir/\" matches a prefix, \"**/dir/**\" anywhere\n" ++
  "paths = []\n" ++
  "# skip_defaults = true\n" ++
  "\n" ++
  "[defaults]\n" ++
  "# format = \"text\"      # text, json or sarif\n" ++
  "# fail_on = \"critical\" # exit with code 1 at or above this severity\n" ++
  "# workers = 8\n"

/-- Puts a configuration into a directory, unless there is one. -/
def init (session : Session) (path : String) : Outcome :=
  let colour := session.render.colour
  let target (trail : Trail) : String := Path.join (Files.spell trail) Config.fileName
  let done (word : String) (trail : Trail) : String :=
    Style.apply colour [.green] "✓" ++ " " ++ word ++ " " ++
      Style.apply colour [.cyan] (target trail) ++ "\n"
  match session.files.resolve? path with
  | none => .failure ("Path does not exist: " ++ path)
  | some trail =>
    match session.files.entryAt trail with
    | .file _ => .failure ("Path is not a directory: " ++ Files.spell trail)
    | .directory entries =>
      if (entries.lookup Config.fileName).isSome then
        { output := done "Already initialized:" trail }
      else
        { output := done "Created" trail
          written := [⟨Files.names trail ++ [Config.fileName], template,
            "Failed to create " ++ target trail⟩] }

end PlsqlAudit.Command
