import Timepiece.Workshop.Production

/-!
# Tasks of the workshop

What can be asked of the workshop on its command line.

## Main definitions

* `WorkshopTask` — a task.
* `WorkshopTask.ofArguments` — the task that some arguments describe.
-/

namespace Timepiece

/-- What can be asked of the workshop. -/
inductive WorkshopTask where
  /-- Compile a file, and tell about it as JSON or in words. -/
  | compile (order : CompileOrder) (asJson : Bool)
  /-- Tell what a program file holds. -/
  | inspect (path : String)
  /-- Tell how a file is cut for an upload. -/
  | fragment (path : String)
  deriving DecidableEq, Repr

/-- Why arguments describe no task. -/
inductive ArgumentFault where
  | noTask
  | unknownTask (name : String)
  | unknownOption (name : String)
  | noValue (option : String)
  | noNumber (text : String)
  | noFile
  | tooMany (argument : String)
  deriving DecidableEq, Repr

/-- The wording of a fault in the arguments. -/
def ArgumentFault.message : ArgumentFault → String
  | noTask => "a task is required: compile, inspect or fragment"
  | unknownTask name => s!"unknown task {name}"
  | unknownOption name => s!"unknown option {name}"
  | noValue option => s!"option {option} requires a value"
  | noNumber text => s!"{text} is no program id"
  | noFile => "a file is required"
  | tooMany argument => s!"unexpected argument {argument}"

namespace WorkshopTask

/-- The arguments of a compilation in the middle of being read. -/
structure CompileDraft where
  input : Option String := none
  output : String := "watchset.bin"
  id : Option UInt32 := none
  manifest : Option String := none
  asJson : Bool := false

/-- The task, once all arguments have been read. -/
def CompileDraft.finish (draft : CompileDraft) : Except ArgumentFault WorkshopTask :=
  match draft.input with
  | some input => .ok (compile ⟨input, draft.output, draft.id, draft.manifest⟩ draft.asJson)
  | none => .error .noFile

/-- Whether an argument is an option. -/
def isOption (argument : String) : Bool :=
  argument.toList.head? == some '-' && argument.length != 1

/-- Reads the arguments of a compilation. -/
def readCompile (draft : CompileDraft) : List String → Except ArgumentFault WorkshopTask
  | [] => draft.finish
  | "--json" :: rest => readCompile { draft with asJson := true } rest
  | "-o" :: path :: rest => readCompile { draft with output := path } rest
  | "--output" :: path :: rest => readCompile { draft with output := path } rest
  | "--manifest" :: path :: rest => readCompile { draft with manifest := some path } rest
  | "--id" :: text :: rest =>
    match Text.unsigned32? text.toList with
    | some id => readCompile { draft with id := some id } rest
    | none => .error (.noNumber text)
  | argument :: rest =>
    if ["-o", "--output", "--manifest", "--id"].contains argument then .error (.noValue argument)
    else if isOption argument then .error (.unknownOption argument)
    else
      match draft.input with
      | none => readCompile { draft with input := some argument } rest
      | some _ => .error (.tooMany argument)

/-- Reads the argument of a task that takes one file. -/
def readFileTask (task : String → WorkshopTask) : List String → Except ArgumentFault WorkshopTask
  | [] => .error .noFile
  | [path] => if isOption path then .error (.unknownOption path) else .ok (task path)
  | _ :: argument :: _ => .error (.tooMany argument)

/-- The task that some arguments describe. -/
def ofArguments : List String → Except ArgumentFault WorkshopTask
  | [] => .error .noTask
  | "compile" :: rest => readCompile {} rest
  | "inspect" :: rest => readFileTask inspect rest
  | "fragment" :: rest => readFileTask fragment rest
  | name :: _ => .error (.unknownTask name)

end WorkshopTask

end Timepiece
