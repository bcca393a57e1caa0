import Jack.Compile.Engine
import Jack.Token.Stream

/-!
# Compiling a source

A source text holds one class. Compiling it gives the text of its program, or its parse tree.
-/

namespace Jack

/-- What compiling one source gives: the name of its class or an error, and all that happened. -/
structure Compilation where
  /-- The name of the class, or the error. -/
  result : Except CompileError String
  engine : Engine

/-- Compiles a source. -/
def compileSource (options : Options) (source : String) : Compilation :=
  let (result, engine) := (Engine.start options (tokensOf source)).compileClass
  ⟨result, engine⟩

/-- Compiles a source and records its parse tree. -/
def compileRecorded (options : Options) (source : String) : Compilation :=
  let (result, engine) := (Engine.start options (tokensOf source)).recordTree.compileClass
  ⟨result, engine⟩

/-- The program text of a source. -/
def compileToVm (options : Options) (source : String) : Except CompileError String :=
  let c := compileSource options source
  c.result.map fun _ => Vm.Instruction.listing c.engine.code

/-- The parse tree of a source, which has to compile. -/
def compileToTree (options : Options) (source : String) : Except CompileError String :=
  let c := compileRecorded options source
  c.result.map fun _ => (c.engine.takeTree.1).getD ""

end Jack
