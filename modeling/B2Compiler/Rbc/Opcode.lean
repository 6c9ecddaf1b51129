import Mathlib.Tactic.Common

/-!
# RBC verification types and the opcode table

The type lattice a verified register or local slot ranges over, the opcode
enumeration in the source's order, and the metadata table every tier reads:
operand signature, result type, operand types and effect flags.  The table is
the single source of truth of the verifier, the interpreter and the stencil
generator, so it is transcribed row by row.
-/

namespace B2Compiler.Rbc

/-- Verification types of registers and local slots.  The lattice is flat
except for `null` below `ref`. -/
inductive RType where
  | bottom | int | long | float | double | null | ref
  deriving DecidableEq, Repr, Inhabited

namespace RType

/-- Merge of two types at a control-flow join; incompatible types merge to
`bottom`. -/
def join (a b : RType) : RType :=
  if a = b then a
  else if (a = .null ∧ b = .ref) ∨ (a = .ref ∧ b = .null) then .ref
  else .bottom

/-- May a value of type `src` be used where `dst` is expected? -/
def isAssignable (src dst : RType) : Bool :=
  if src = dst then true
  else if src = .null ∧ dst = .ref then true
  else false

/-- Spelling in diagnostics and dumps. -/
def typeName : RType → String
  | bottom => "bottom"
  | int => "int"
  | long => "long"
  | float => "float"
  | double => "double"
  | null => "null"
  | ref => "ref"

end RType

/-! ## Opcodes -/

/-- The opcode set, in the order of the source's enumeration. -/
inductive Op where
  | nop | safepointPoll
  | aconstNull | iconst | fconst | lconst | dconst | ldc
  | iload | lload | fload | dload | aload | istore | lstore | fstore | dstore | astore
  | imove | lmove | fmove | dmove | amove
  | iadd | isub | imul | idiv | irem | ineg | ishl | ishr | iushr | iand | ior | ixor
  | iinc
  | ladd | lsub | lmul | ldiv | lrem | lneg | lshl | lshr | lushr | land | lor | lxor
  | fadd | fsub | fmul | fdiv | frem | fneg
  | dadd | dsub | dmul | ddiv | drem | dneg
  | icmp | lcmp | fcmpl | fcmpg | dcmpl | dcmpg
  | i2l | i2f | i2d | l2i | l2f | l2d | f2i | f2l | f2d | d2i | d2l | d2f | i2b | i2c
  | i2s
  | goto | ifeq | ifne | iflt | ifge | ifgt | ifle | ifnull | ifnonnull | ifIcmpeq
  | ifIcmpne | ifIcmplt | ifIcmpge | ifIcmpgt | ifIcmple | ifAcmpeq | ifAcmpne
  | tableswitch | lookupswitch
  | getfield | putfield | getstatic | putstatic | getfieldQuick | putfieldQuick
  | newArray | anewArray | arraylength | iaload | laload | faload | daload | aaload
  | baload | caload | saload | iastore | lastore | fastore | dastore | aastore
  | bastore | castore | sastore | multianewarray
  | new | checkcast | instanceof | monitorenter | monitorexit
  | invokevirtual | invokespecial | invokestatic | invokeinterface | invokedynamic
  | invokevirtualQuick | invokespecialQuick | invokestaticQuick | invokeinterfaceQuick
  | returnVoid | ireturn | lreturn | freturn | dreturn | areturn
  | athrow
  | deoptTrap | guardNonNull | guardClass
  deriving DecidableEq, Repr, Inhabited

/-- How the `dst`, `a`, `b` and `imm` fields of an instruction are read. -/
inductive Sig where
  | none | reg | regImm | regCp | regSlot | slotReg | regReg | regRegReg
  | regRegImm | regRegCp | regRegRegCp | branch | regBranch | regRegBranch
  | regCpBranch | call | callQuick | guard | guardCp | trap
  deriving DecidableEq, Repr, Inhabited

/-- Effect flags.  The source packs them into sixteen bits; here a row lists the
flags it sets. -/
inductive Eff where
  | readsHeap | writesHeap | canCall | canTrap | canAllocate | canBranch
  | isSafepoint | quickened
  deriving DecidableEq, Repr, Inhabited

/-- One row of the metadata table.  `bottom` stands for "writes nothing" or
"descriptor-derived" in `result`, and for "unused or any" in the operands. -/
structure OpInfo where
  name : String
  sig : Sig
  result : RType
  operandA : RType
  operandB : RType
  effects : List Eff
  deriving DecidableEq, Repr

/-- Does a row carry the given effect flag? -/
def hasEff (v : List Eff) (f : Eff) : Bool :=
  v.contains f

/-- The metadata table, indexed by opcode. -/
def info : Op → OpInfo
  | .nop => ⟨"nop", .none, .bottom, .bottom, .bottom, []⟩
  | .safepointPoll => ⟨"safepoint_poll", .none, .bottom, .bottom, .bottom, [.isSafepoint]⟩
  | .aconstNull => ⟨"aconst_null", .regImm, .null, .bottom, .bottom, []⟩
  | .iconst => ⟨"iconst", .regImm, .int, .bottom, .bottom, []⟩
  | .fconst => ⟨"fconst", .regImm, .float, .bottom, .bottom, []⟩
  | .lconst => ⟨"lconst", .regCp, .long, .bottom, .bottom, []⟩
  | .dconst => ⟨"dconst", .regCp, .double, .bottom, .bottom, []⟩
  | .ldc => ⟨"ldc", .regCp, .ref, .bottom, .bottom, [.canTrap]⟩
  | .iload => ⟨"iload", .regSlot, .int, .bottom, .bottom, []⟩
  | .lload => ⟨"lload", .regSlot, .long, .bottom, .bottom, []⟩
  | .fload => ⟨"fload", .regSlot, .float, .bottom, .bottom, []⟩
  | .dload => ⟨"dload", .regSlot, .double, .bottom, .bottom, []⟩
  | .aload => ⟨"aload", .regSlot, .ref, .bottom, .bottom, []⟩
  | .istore => ⟨"istore", .slotReg, .bottom, .int, .bottom, []⟩
  | .lstore => ⟨"lstore", .slotReg, .bottom, .long, .bottom, []⟩
  | .fstore => ⟨"fstore", .slotReg, .bottom, .float, .bottom, []⟩
  | .dstore => ⟨"dstore", .slotReg, .bottom, .double, .bottom, []⟩
  | .astore => ⟨"astore", .slotReg, .bottom, .ref, .bottom, []⟩
  | .imove => ⟨"imove", .regReg, .int, .int, .bottom, []⟩
  | .lmove => ⟨"lmove", .regReg, .long, .long, .bottom, []⟩
  | .fmove => ⟨"fmove", .regReg, .float, .float, .bottom, []⟩
  | .dmove => ⟨"dmove", .regReg, .double, .double, .bottom, []⟩
  | .amove => ⟨"amove", .regReg, .ref, .ref, .bottom, []⟩
  | .iadd => ⟨"iadd", .regRegReg, .int, .int, .int, []⟩
  | .isub => ⟨"isub", .regRegReg, .int, .int, .int, []⟩
  | .imul => ⟨"imul", .regRegReg, .int, .int, .int, []⟩
  | .idiv => ⟨"idiv", .regRegReg, .int, .int, .int, [.canTrap]⟩
  | .irem => ⟨"irem", .regRegReg, .int, .int, .int, [.canTrap]⟩
  | .ineg => ⟨"ineg", .regReg, .int, .int, .bottom, []⟩
  | .ishl => ⟨"ishl", .regRegReg, .int, .int, .int, []⟩
  | .ishr => ⟨"ishr", .regRegReg, .int, .int, .int, []⟩
  | .iushr => ⟨"iushr", .regRegReg, .int, .int, .int, []⟩
  | .iand => ⟨"iand", .regRegReg, .int, .int, .int, []⟩
  | .ior => ⟨"ior", .regRegReg, .int, .int, .int, []⟩
  | .ixor => ⟨"ixor", .regRegReg, .int, .int, .int, []⟩
  | .iinc => ⟨"iinc", .regImm, .int, .bottom, .bottom, []⟩
  | .ladd => ⟨"ladd", .regRegReg, .long, .long, .long, []⟩
  | .lsub => ⟨"lsub", .regRegReg, .long, .long, .long, []⟩
  | .lmul => ⟨"lmul", .regRegReg, .long, .long, .long, []⟩
  | .ldiv => ⟨"ldiv", .regRegReg, .long, .long, .long, [.canTrap]⟩
  | .lrem => ⟨"lrem", .regRegReg, .long, .long, .long, [.canTrap]⟩
  | .lneg => ⟨"lneg", .regReg, .long, .long, .bottom, []⟩
  | .lshl => ⟨"lshl", .regRegReg, .long, .long, .int, []⟩
  | .lshr => ⟨"lshr", .regRegReg, .long, .long, .int, []⟩
  | .lushr => ⟨"lushr", .regRegReg, .long, .long, .int, []⟩
  | .land => ⟨"land", .regRegReg, .long, .long, .long, []⟩
  | .lor => ⟨"lor", .regRegReg, .long, .long, .long, []⟩
  | .lxor => ⟨"lxor", .regRegReg, .long, .long, .long, []⟩
  | .fadd => ⟨"fadd", .regRegReg, .float, .float, .float, []⟩
  | .fsub => ⟨"fsub", .regRegReg, .float, .float, .float, []⟩
  | .fmul => ⟨"fmul", .regRegReg, .float, .float, .float, []⟩
  | .fdiv => ⟨"fdiv", .regRegReg, .float, .float, .float, []⟩
  | .frem => ⟨"frem", .regRegReg, .float, .float, .float, []⟩
  | .fneg => ⟨"fneg", .regReg, .float, .float, .bottom, []⟩
  | .dadd => ⟨"dadd", .regRegReg, .double, .double, .double, []⟩
  | .dsub => ⟨"dsub", .regRegReg, .double, .double, .double, []⟩
  | .dmul => ⟨"dmul", .regRegReg, .double, .double, .double, []⟩
  | .ddiv => ⟨"ddiv", .regRegReg, .double, .double, .double, []⟩
  | .drem => ⟨"drem", .regRegReg, .double, .double, .double, []⟩
  | .dneg => ⟨"dneg", .regReg, .double, .double, .bottom, []⟩
  | .icmp => ⟨"icmp", .regRegReg, .int, .int, .int, []⟩
  | .lcmp => ⟨"lcmp", .regRegReg, .int, .long, .long, []⟩
  | .fcmpl => ⟨"fcmpl", .regRegReg, .int, .float, .float, []⟩
  | .fcmpg => ⟨"fcmpg", .regRegReg, .int, .float, .float, []⟩
  | .dcmpl => ⟨"dcmpl", .regRegReg, .int, .double, .double, []⟩
  | .dcmpg => ⟨"dcmpg", .regRegReg, .int, .double, .double, []⟩
  | .i2l => ⟨"i2l", .regReg, .long, .int, .bottom, []⟩
  | .i2f => ⟨"i2f", .regReg, .float, .int, .bottom, []⟩
  | .i2d => ⟨"i2d", .regReg, .double, .int, .bottom, []⟩
  | .l2i => ⟨"l2i", .regReg, .int, .long, .bottom, []⟩
  | .l2f => ⟨"l2f", .regReg, .float, .long, .bottom, []⟩
  | .l2d => ⟨"l2d", .regReg, .double, .long, .bottom, []⟩
  | .f2i => ⟨"f2i", .regReg, .int, .float, .bottom, []⟩
  | .f2l => ⟨"f2l", .regReg, .long, .float, .bottom, []⟩
  | .f2d => ⟨"f2d", .regReg, .double, .float, .bottom, []⟩
  | .d2i => ⟨"d2i", .regReg, .int, .double, .bottom, []⟩
  | .d2l => ⟨"d2l", .regReg, .long, .double, .bottom, []⟩
  | .d2f => ⟨"d2f", .regReg, .float, .double, .bottom, []⟩
  | .i2b => ⟨"i2b", .regReg, .int, .int, .bottom, []⟩
  | .i2c => ⟨"i2c", .regReg, .int, .int, .bottom, []⟩
  | .i2s => ⟨"i2s", .regReg, .int, .int, .bottom, []⟩
  | .goto => ⟨"goto", .branch, .bottom, .bottom, .bottom, [.canBranch]⟩
  | .ifeq => ⟨"ifeq", .regBranch, .bottom, .int, .bottom, [.canBranch]⟩
  | .ifne => ⟨"ifne", .regBranch, .bottom, .int, .bottom, [.canBranch]⟩
  | .iflt => ⟨"iflt", .regBranch, .bottom, .int, .bottom, [.canBranch]⟩
  | .ifge => ⟨"ifge", .regBranch, .bottom, .int, .bottom, [.canBranch]⟩
  | .ifgt => ⟨"ifgt", .regBranch, .bottom, .int, .bottom, [.canBranch]⟩
  | .ifle => ⟨"ifle", .regBranch, .bottom, .int, .bottom, [.canBranch]⟩
  | .ifnull => ⟨"ifnull", .regBranch, .bottom, .ref, .bottom, [.canBranch]⟩
  | .ifnonnull => ⟨"ifnonnull", .regBranch, .bottom, .ref, .bottom, [.canBranch]⟩
  | .ifIcmpeq => ⟨"if_icmpeq", .regRegBranch, .bottom, .int, .int, [.canBranch]⟩
  | .ifIcmpne => ⟨"if_icmpne", .regRegBranch, .bottom, .int, .int, [.canBranch]⟩
  | .ifIcmplt => ⟨"if_icmplt", .regRegBranch, .bottom, .int, .int, [.canBranch]⟩
  | .ifIcmpge => ⟨"if_icmpge", .regRegBranch, .bottom, .int, .int, [.canBranch]⟩
  | .ifIcmpgt => ⟨"if_icmpgt", .regRegBranch, .bottom, .int, .int, [.canBranch]⟩
  | .ifIcmple => ⟨"if_icmple", .regRegBranch, .bottom, .int, .int, [.canBranch]⟩
  | .ifAcmpeq => ⟨"if_acmpeq", .regRegBranch, .bottom, .ref, .ref, [.canBranch]⟩
  | .ifAcmpne => ⟨"if_acmpne", .regRegBranch, .bottom, .ref, .ref, [.canBranch]⟩
  | .tableswitch => ⟨"tableswitch", .regCpBranch, .bottom, .int, .bottom, [.canBranch]⟩
  | .lookupswitch => ⟨"lookupswitch", .regCpBranch, .bottom, .int, .bottom, [.canBranch]⟩
  | .getfield => ⟨"getfield", .regRegCp, .bottom, .ref, .bottom, [.readsHeap, .canTrap]⟩
  | .putfield => ⟨"putfield", .regRegRegCp, .bottom, .ref, .bottom, [.writesHeap, .canTrap]⟩
  | .getstatic => ⟨"getstatic", .regCp, .bottom, .bottom, .bottom, [.readsHeap, .canTrap]⟩
  | .putstatic => ⟨"putstatic", .regCp, .bottom, .bottom, .bottom, [.writesHeap, .canTrap]⟩
  | .getfieldQuick =>
    ⟨"getfield_quick", .regRegCp, .bottom, .ref, .bottom, [.readsHeap, .canTrap, .quickened]⟩
  | .putfieldQuick =>
    ⟨"putfield_quick", .regRegRegCp, .bottom, .ref, .bottom, [.writesHeap, .canTrap, .quickened]⟩
  | .newArray =>
    ⟨"newarray", .regRegImm, .ref, .int, .bottom, [.canAllocate, .canTrap, .isSafepoint]⟩
  | .anewArray =>
    ⟨"anewarray", .regRegCp, .ref, .int, .bottom, [.canAllocate, .canTrap, .isSafepoint]⟩
  | .arraylength => ⟨"arraylength", .regReg, .int, .ref, .bottom, [.canTrap]⟩
  | .iaload => ⟨"iaload", .regRegReg, .int, .ref, .int, [.readsHeap, .canTrap]⟩
  | .laload => ⟨"laload", .regRegReg, .long, .ref, .int, [.readsHeap, .canTrap]⟩
  | .faload => ⟨"faload", .regRegReg, .float, .ref, .int, [.readsHeap, .canTrap]⟩
  | .daload => ⟨"daload", .regRegReg, .double, .ref, .int, [.readsHeap, .canTrap]⟩
  | .aaload => ⟨"aaload", .regRegReg, .ref, .ref, .int, [.readsHeap, .canTrap]⟩
  | .baload => ⟨"baload", .regRegReg, .int, .ref, .int, [.readsHeap, .canTrap]⟩
  | .caload => ⟨"caload", .regRegReg, .int, .ref, .int, [.readsHeap, .canTrap]⟩
  | .saload => ⟨"saload", .regRegReg, .int, .ref, .int, [.readsHeap, .canTrap]⟩
  | .iastore => ⟨"iastore", .regRegReg, .bottom, .ref, .int, [.writesHeap, .canTrap]⟩
  | .lastore => ⟨"lastore", .regRegReg, .bottom, .ref, .int, [.writesHeap, .canTrap]⟩
  | .fastore => ⟨"fastore", .regRegReg, .bottom, .ref, .int, [.writesHeap, .canTrap]⟩
  | .dastore => ⟨"dastore", .regRegReg, .bottom, .ref, .int, [.writesHeap, .canTrap]⟩
  | .aastore => ⟨"aastore", .regRegReg, .bottom, .ref, .int, [.writesHeap, .canTrap]⟩
  | .bastore => ⟨"bastore", .regRegReg, .bottom, .ref, .int, [.writesHeap, .canTrap]⟩
  | .castore => ⟨"castore", .regRegReg, .bottom, .ref, .int, [.writesHeap, .canTrap]⟩
  | .sastore => ⟨"sastore", .regRegReg, .bottom, .ref, .int, [.writesHeap, .canTrap]⟩
  | .multianewarray =>
    ⟨"multianewarray", .regRegRegCp, .ref, .int, .bottom, [.canAllocate, .canTrap, .isSafepoint]⟩
  | .new => ⟨"new", .regCp, .ref, .bottom, .bottom, [.canAllocate, .canTrap, .isSafepoint]⟩
  | .checkcast => ⟨"checkcast", .regRegCp, .ref, .ref, .bottom, [.canTrap]⟩
  | .instanceof => ⟨"instanceof", .regRegCp, .int, .ref, .bottom, [.canTrap]⟩
  | .monitorenter => ⟨"monitorenter", .reg, .bottom, .ref, .bottom, [.canTrap, .isSafepoint]⟩
  | .monitorexit => ⟨"monitorexit", .reg, .bottom, .ref, .bottom, [.canTrap, .isSafepoint]⟩
  | .invokevirtual =>
    ⟨"invokevirtual", .call, .bottom, .bottom, .bottom, [.canCall, .canTrap, .isSafepoint]⟩
  | .invokespecial =>
    ⟨"invokespecial", .call, .bottom, .bottom, .bottom, [.canCall, .canTrap, .isSafepoint]⟩
  | .invokestatic =>
    ⟨"invokestatic", .call, .bottom, .bottom, .bottom, [.canCall, .canTrap, .isSafepoint]⟩
  | .invokeinterface =>
    ⟨"invokeinterface", .call, .bottom, .bottom, .bottom, [.canCall, .canTrap, .isSafepoint]⟩
  | .invokedynamic =>
    ⟨"invokedynamic", .call, .bottom, .bottom, .bottom, [.canCall, .canTrap, .isSafepoint]⟩
  | .invokevirtualQuick =>
    ⟨"invokevirtual_quick", .callQuick, .bottom, .bottom, .bottom, [.canCall, .canTrap, .isSafepoint, .quickened]⟩
  | .invokespecialQuick =>
    ⟨"invokespecial_quick", .callQuick, .bottom, .bottom, .bottom, [.canCall, .canTrap, .isSafepoint, .quickened]⟩
  | .invokestaticQuick =>
    ⟨"invokestatic_quick", .callQuick, .bottom, .bottom, .bottom, [.canCall, .canTrap, .isSafepoint, .quickened]⟩
  | .invokeinterfaceQuick =>
    ⟨"invokeinterface_quick", .callQuick, .bottom, .bottom, .bottom, [.canCall, .canTrap, .isSafepoint, .quickened]⟩
  | .returnVoid => ⟨"return", .none, .bottom, .bottom, .bottom, []⟩
  | .ireturn => ⟨"ireturn", .reg, .bottom, .int, .bottom, []⟩
  | .lreturn => ⟨"lreturn", .reg, .bottom, .long, .bottom, []⟩
  | .freturn => ⟨"freturn", .reg, .bottom, .float, .bottom, []⟩
  | .dreturn => ⟨"dreturn", .reg, .bottom, .double, .bottom, []⟩
  | .areturn => ⟨"areturn", .reg, .bottom, .ref, .bottom, []⟩
  | .athrow => ⟨"athrow", .reg, .bottom, .ref, .bottom, [.canTrap]⟩
  | .deoptTrap => ⟨"deopt_trap", .trap, .bottom, .bottom, .bottom, [.canTrap]⟩
  | .guardNonNull => ⟨"guard_non_null", .guard, .bottom, .ref, .bottom, [.canTrap, .canBranch]⟩
  | .guardClass => ⟨"guard_class", .guardCp, .bottom, .ref, .bottom, [.canTrap, .canBranch]⟩

end B2Compiler.Rbc
