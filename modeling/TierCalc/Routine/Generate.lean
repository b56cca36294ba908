import TierCalc.Expr.Names
import TierCalc.Operator
import TierCalc.Routine.Verify
import TierCalc.Text.Quoted
import TierCalc.X64.Buffer

/-!
# Generating routines

An expression without calls becomes a routine that leaves its value in `rax`.

* The routine sets up a frame, copies the block's values into its slots, computes the expression, copies the slots
  back and returns through a common exit.
* A binary node computes its right operand first, pushes it, computes the left one and pops the right one into `rcx`.
  That is only right for operands that do not interfere.
* Division tests its divisor. Zero puts a status into the block and leaves through the exit; minus one is handled
  without a division, which would trap on the least integer.
* A variable may be read if it is seeded or has been assigned on every path to the read.

Code is written once, from front to back (`Draft`). A branch is appended with a displacement of zero and its place is
noted; when the code behind it is there, the place is patched. Jumps to the exit are patched last. The prologue depends
on the number of slots, so it is written when the rest is, and put in front.
-/

namespace TierCalc

namespace Routine

open X64

/-- Why an expression has no routine. From `invalidOperator` on, the reasons do not lie in expressions as they are
read. -/
inductive GenerateError where
  | containsCall
  | unbound (name : String)
  | interference (node : String)
  | tooManySlots (count : Nat)
  | tooManyVariables
  | tooDeep
  | invalidOperator (number : UInt8)
  | unsupportedOperator (o : Operator)
  | operandUnderflow
  | operandsLeft (depth : Nat)
  | noPlaceholder (site : Nat)
  | unpatchedBranch
  | assembler (e : BufferError)
  | refused (e : VerifyError)
deriving DecidableEq, Repr

def GenerateError.message : GenerateError → String
  | containsCall => "codegen: expression contains a function call"
  | unbound name => "codegen: variable is read before it is assigned: " ++ Quoted.text name
  | interference node => "codegen: operands interfere through assignment: " ++ node
  | tooManySlots n =>
      "codegen: expression exceeds the native frame budget: " ++ toString n ++ " variable slots"
  | tooManyVariables =>
      "codegen: expression exceeds the native frame budget: more than " ++ toString maxSlots ++ " variables"
  | tooDeep => "codegen: expression exceeds the native frame budget: operand depth above " ++ toString maxDepth
  | invalidOperator n => "codegen: invalid operator " ++ toString n.toNat
  | unsupportedOperator o => "codegen: unsupported operator " ++ o.symbol
  | operandUnderflow => "codegen: operand stack underflow"
  | operandsLeft depth => "codegen: operand depth " ++ toString depth ++ " after expression"
  | noPlaceholder site => "codegen: no placeholder at offset " ++ toString site
  | unpatchedBranch => "codegen: branch placeholder was never patched"
  | assembler e => e.message
  | refused e => e.message

/-! ### Writing code -/

/-- A routine that is being written: the code so far, the names with a slot, those that certainly have a value, the
number of operands on the stack now and at most, the places of branches without a target, and those of the jumps to the
exit. -/
structure Draft where
  code : Buffer := {}
  names : List String
  defined : List String
  depth : Nat := 0
  deepest : Nat := 0
  pending : List Nat := []
  exits : List Nat := []
deriving DecidableEq, Repr

namespace Draft

def size (g : Draft) : Nat := g.code.bytes.length

def emit (g : Draft) (i : Instr) : Except GenerateError Draft := do
  let code ← (g.code.emit i).mapError .assembler
  return { g with code := code }

def emitAll (g : Draft) (is : List Instr) : Except GenerateError Draft := is.foldlM emit g

/-- Appends a branch without a target and tells the place of its displacement. -/
def branch (g : Draft) (i : Instr) : Except GenerateError (Nat × Draft) := do
  let site := g.code.site i
  let g ← g.emit i
  return (site, { g with pending := g.pending ++ [site] })

def jcc (g : Draft) (c : Cond) : Except GenerateError (Nat × Draft) := g.branch (.jcc c 0)

def jmp (g : Draft) : Except GenerateError (Nat × Draft) := g.branch (.jmp 0)

/-- Gives the branch at a place its target. -/
def patch (g : Draft) (site target : Nat) : Except GenerateError Draft := do
  if !g.pending.contains site then throw (.noPlaceholder site)
  let code ← (g.code.patch site target).mapError .assembler
  return { g with code := code, pending := g.pending.filter (· != site) }

/-- Patches the branch at a place to lead to what is appended next. -/
def land (g : Draft) (site : Nat) : Except GenerateError Draft := g.patch site g.size

def push (g : Draft) : Except GenerateError Draft := do
  let g ← g.emit (.push .rax)
  if g.depth + 1 > maxDepth then throw .tooDeep
  return { g with depth := g.depth + 1, deepest := max g.deepest (g.depth + 1) }

def pop (g : Draft) : Except GenerateError Draft := do
  if g.depth = 0 then throw .operandUnderflow
  let g ← g.emit (.pop .rcx)
  return { g with depth := g.depth - 1 }

end Draft

/-! ### Operators -/

/-- The status for a division or a remainder by zero. -/
def statusOf (isModulo : Bool) : Int32 := if isModulo then statusModulo else statusDivide

/-- Leaves through the exit with a status if `rcx` is zero. -/
def Draft.leaveAtZero (g : Draft) (status : Int32) : Except GenerateError Draft := do
  let unwind := if g.depth > 0 then [.addImm .rsp (Int32.ofNat (8 * g.depth))] else []
  let g ← g.emit (.test .rcx .rcx)
  let (nonZero, g) ← g.jcc .notEqual
  let g ← g.emitAll unwind
  let g ← g.emit (.storeImm .rdi 0 status)
  let (leave, g) ← g.jmp
  { g with exits := g.exits ++ [leave] }.land nonZero

def Draft.divide (g : Draft) (isModulo : Bool) : Except GenerateError Draft := do
  let g ← g.leaveAtZero (statusOf isModulo)
  let g ← g.emit (.cmpImm .rcx (-1))
  let (notMinusOne, g) ← g.jcc .notEqual
  let g ← g.emit (if isModulo then .xor32 .rax .rax else .neg .rax)
  let (done, g) ← g.jmp
  let g ← g.land notMinusOne
  let g ← g.emitAll ([.cqo, .idiv .rcx] ++ if isModulo then [.movReg .rax .rdx] else [])
  g.land done

/-- The condition under which a comparison gives one. -/
def comparison? : Operator → Option Cond
  | .equal => some .equal
  | .notEqual => some .notEqual
  | .lessThan => some .less
  | .greaterThan => some .greater
  | .lessOrEqual => some .lessEqual
  | .greaterOrEqual => some .greaterEqual
  | _ => none

/-- An operator applied to `rax` and `rcx`. -/
def Draft.operate (g : Draft) : Operator → Except GenerateError Draft
  | .add => g.emit (.add .rax .rcx)
  | .subtract => g.emit (.sub .rax .rcx)
  | .multiply => g.emit (.imul .rax .rcx)
  | .divide => g.divide false
  | .modulo => g.divide true
  | o =>
      match comparison? o with
      | none => .error (.unsupportedOperator o)
      | some c => g.emitAll [.cmp .rax .rcx, .setcc c .rax, .movzx .rax .rax]

/-! ### Expressions -/

/-- Appends the code of an expression. Behind a conditional, only names with a value on both branches certainly have
one. -/
def Draft.compile : Expr → Draft → Except GenerateError Draft
  | .int _ _ v, g => g.emit (.mov .rax v)
  | .ident _ name, g =>
      if g.defined.contains name then g.emit (.load .rax .rbp (frameOffset (g.names.idxOf name)))
      else .error (.unbound name)
  | .binary l pos op r, g =>
      match Operator.ofNumber? op with
      | none => .error (.invalidOperator op)
      | some o =>
          if l.interferes r then .error (.interference (Expr.binary l pos op r).render)
          else do
            let g ← compile r g
            let g ← g.push
            let g ← compile l g
            let g ← g.pop
            g.operate o
  | .assign _ name _ v, g => do
      let g ← compile v g
      let g := { g with names := Layout.add g.names name }
      let slot := g.names.idxOf name
      if slot ≥ maxSlots then throw .tooManyVariables
      let g ← g.emitAll [.store .rbp (frameOffset slot) .rax, .storeImm .rdi (flagOffset slot) 1]
      return { g with defined := Layout.add g.defined name }
  | .call _ _ _ _ _, _ => .error .containsCall
  | .cond _ _ c y n _, g => do
      let g ← compile c g
      let g ← g.emit (.test .rax .rax)
      let (jumpIfFalse, g) ← g.jcc .equal
      let before := g.defined
      let g ← compile y g
      let after := g.defined
      let (jumpOver, g) ← { g with defined := before }.jmp
      let g ← g.land jumpIfFalse
      let g ← compile n g
      let g ← g.land jumpOver
      return { g with defined := g.defined.filter after.contains }

/-! ### Routines -/

/-- The instructions that set up the frame and copy the block's values into the slots. -/
def prologue (slots : Nat) : List Instr :=
  [.push .rbp, .movReg .rbp .rsp]
    ++ (if slots > 0 then [.subImm .rsp (Int32.ofNat (8 * slots))] else [])
    ++ (List.range slots).flatMap fun s => [.load .rax .rdi (valueOffset s), .store .rbp (frameOffset s) .rax]

/-- The instructions that copy the slots back into the block; `rax` keeps the result. -/
def copyBack (slots : Nat) : List Instr :=
  (List.range slots).flatMap fun s => [.load .rcx .rbp (frameOffset s), .store .rdi (valueOffset s) .rcx]

/-- The common exit. -/
def epilogue : List Instr := [.movReg .rsp .rbp, .pop .rbp, .ret]

/-- Appends what follows the code of the expression, and gives the jumps to the exit their target. -/
def Draft.finish (g : Draft) : Except GenerateError Draft := do
  let g ← g.emitAll (copyBack g.names.length)
  let exit := g.size
  let g ← g.exits.foldlM (fun g site => g.patch site exit) g
  let g ← g.emitAll epilogue
  if !g.pending.isEmpty then throw .unpatchedBranch
  return g

end Routine

/-- A finished routine: its code, the slots of its variables, the offset of its first instruction, and the deepest
operand stack that it needs. -/
structure Routine where
  code : Bytes
  layout : Routine.Layout
  entry : Int := 0
  depth : Nat := 0
deriving DecidableEq, Repr

namespace Routine

open X64

def size (r : Routine) : Nat := r.code.length

/-- The routine that is written for an expression whose seeds the caller supplies. -/
def write (e : Expr) (seeds : List String) : Except GenerateError Routine := do
  let start := Layout.ofSeeds seeds
  let g ← Draft.compile e { names := start.names, defined := start.names }
  if g.depth ≠ 0 then throw (.operandsLeft g.depth)
  let slots := g.names.length
  if slots > maxSlots then throw (.tooManySlots slots)
  let g ← g.finish
  let front ← ((prologue slots).foldlM Buffer.emit {}).mapError .assembler
  return { code := front.bytes ++ g.code.bytes, layout := ⟨g.names, start.seeds⟩, depth := g.deepest }

/-- The routine of an expression: the one that is written, if verification accepts it. -/
def generate (e : Expr) (seeds : List String) : Except GenerateError Routine :=
  if !e.callFree then .error .containsCall
  else do
    let r ← write e seeds
    match verify r.code r.layout r.entry with
    | .error e => throw (.refused e)
    | .ok () => return r

end Routine

end TierCalc
