import WidgetCompiler.CommandLine.Arguments
import WidgetCompiler.Markup.Outline
import WidgetCompiler.Project
import WidgetCompiler.Report

namespace WidgetCompiler.CommandLine

def programName : String :=
  "svelte-gjs"

def versionText : String :=
  programName ++ " 0.1.0\n"

inductive Command
  | build (sources output config : Option Path) (omitsSupport : Bool)
  | compile (file sources : Path)
  | outline (file : Path)
deriving Repr, DecidableEq

inductive Topic
  | program
  | build
  | compile
  | outline
  | help
deriving Repr, DecidableEq

inductive Request
  | run (c : Command)
  | help (t : Topic)
  | version
deriving Repr, DecidableEq

def verboseFlag : Flag :=
  { long := "verbose", short := some 'v', repeats := true
    about := "Increase verbosity (-v info, -vv debug, -vvv trace)" }

def helpFlag : Flag :=
  { long := "help", short := some 'h', ends := true, about := "Print help" }

def versionFlag : Flag :=
  { long := "version", short := some 'V', ends := true, about := "Print version" }

def Topic.flags : Topic → List Flag
  | .program => [verboseFlag, helpFlag, versionFlag]
  | .build =>
    [{ long := "src", value := some "SRC", about := "Source directory" }, verboseFlag,
      { long := "out", value := some "OUT", about := "Output directory (cleared before writing)" },
      { long := "config", value := some "CONFIG"
        about := "JSON config file (defaults to ./" ++ settingsFile ++ " when present)" },
      { long := "no-runtime"
        about := "Do not write " ++ supportFile ++ " into the output directory" }, helpFlag]
  | .compile =>
    [{ long := "src", value := some "SRC"
       about := "Source root used for module names and import bounds [default: src]" },
      verboseFlag, helpFlag]
  | .outline => [verboseFlag, helpFlag]
  | .help => []

def Topic.about : Topic → String
  | .program => "Compile Svelte components into GJS widget code"
  | .build => "Compile every component and module of a project"
  | .compile => "Compile one file and print the result"
  | .outline => "Print the parsed template of a component as JSON"
  | .help => "Print this message or the help of the given subcommand(s)"

def topics : List (String × Topic) :=
  [("build", .build), ("compile", .compile), ("ast", .outline), ("help", .help)]

def Topic.usage : Topic → String
  | .program => "[OPTIONS] <COMMAND>"
  | .build => "build [OPTIONS]"
  | .compile => "compile [OPTIONS] <FILE>"
  | .outline => "ast [OPTIONS] <FILE>"
  | .help => "help [COMMAND]..."

def Topic.operands : Topic → List (String × String)
  | .compile | .outline => [("<FILE>", "")]
  | .help => [("[COMMAND]...", "Print help for the subcommand(s)")]
  | .program | .build => []

def Topic.commands : Topic → List (String × String)
  | .program => topics.map fun (word, t) => (word, t.about)
  | _ => []

def Flag.label (f : Flag) : String :=
  (match f.short with
    | some c => "-" ++ c.toString ++ ", "
    | none => "    ") ++
  "--" ++ f.long ++
  (match f.value with
    | some name => " <" ++ name ++ ">"
    | none => "") ++
  (if f.repeats then "..." else "")

def padded (width : Nat) (s : String) : String :=
  s ++ String.ofList (List.replicate (width - s.length) ' ')

def helpSection (title : String) (rows : List (String × String)) : String :=
  if rows.isEmpty then ""
  else
    let width := rows.foldl (fun w (label, _) => max w label.length) 0
    "\n" ++ title ++ ":\n" ++ String.join (rows.map fun (label, about) =>
      "  " ++ padded width label ++ "  " ++ about ++ "\n")

def usageLine (t : Topic) : String :=
  "Usage: " ++ programName ++ " " ++ t.usage ++ "\n"

def helpText (t : Topic) : String :=
  let text := t.about ++ "\n\n" ++ usageLine t ++ helpSection "Commands" t.commands ++
    helpSection "Arguments" t.operands ++
    helpSection "Options" (t.flags.map fun f => (f.label, f.about))
  String.ofList (Text.trimEnd text.toList) ++ "\n"

def Topic.command? (t : Topic) (g : Given) : Option Command :=
  match t, g.operands with
  | .build, [] =>
    some (.build (g.value? "src") (g.value? "out") (g.value? "config") (g.has "no-runtime"))
  | .compile, [file] => some (.compile ⟨file⟩ ((g.value? "src").getD ⟨"src"⟩))
  | .outline, [file] => some (.outline ⟨file⟩)
  | _, _ => none

def helpRequest? : List String → Option Request
  | [] => some (.help .program)
  | [word] => (topics.lookup word).map .help
  | _ => none

def Topic.request? (t : Topic) (words : List String) : Option Request :=
  if t = .help then helpRequest? words
  else
    (Given.empty.read? t.flags t.operands.length words).bind fun g =>
      if g.ending?.isSome then some (.help t) else (t.command? g).map .run

def Request.ofWords? : List String → Option Request
  | [] => none
  | word :: rest =>
    if isFlagWord word then
      match Given.empty.read? Topic.program.flags 0 [word] with
      | none => none
      | some g =>
        match g.ending? with
        | some f => some (if f.long = versionFlag.long then .version else .help .program)
        | none => if word = "--" then none else ofWords? rest
    else (topics.lookup word).bind (·.request? rest)

structure Outcome where
  exitCode : Nat
  output : String
  errors : String
deriving Repr, DecidableEq

def Outcome.success (output : String) : Outcome :=
  ⟨0, output, ""⟩

def Outcome.misused : Outcome :=
  ⟨2, "", usageLine .program ++ "\nFor more information, try '--help'.\n"⟩

def Outcome.failure (files : FileTree) (p : Problem) : Outcome :=
  let source := p.file.bind fun file => (files.read ⟨file⟩).toOption
  ⟨1, "", Report.text p source false ++ "\n"⟩

def Command.run : Command → Work String
  | .build sources output config omitsSupport => do
    let settings ← Work.look (Settings.discover · config)
    let settings := { settings with
      sources := sources.getD settings.sources
      output := output.getD settings.output
      writesSupport := settings.writesSupport && !omitsSupport }
    let report ← buildProject settings
    return successMessage report.output.text ++ "\n"
  | .compile file sources => Work.look (compileFile · file sources)
  | .outline file => do
    let source ← Work.look fun files => (files.read file).mapError (Problem.ofFile · file.text)
    let document ← Work.look fun _ =>
      (Markup.Document.parse source).mapError (·.inFile file.text)
    return document.value.text 0 ++ "\n"

def run (words : List String) (files : FileTree) : Outcome × FileTree :=
  match Request.ofWords? words with
  | none => (.misused, files)
  | some .version => (.success versionText, files)
  | some (.help t) => (.success (helpText t), files)
  | some (.run c) =>
    match Work.run c.run files with
    | (.ok output, files) => (.success output, files)
    | (.error p, files) => (.failure files p, files)

end WidgetCompiler.CommandLine
