import ClassLinker.Text.Basic

/-!
The opcode table: for each defined opcode its mnemonic, the shape of its encoding and what its
operand refers to. Opcodes are numbered by their position in the table, from `nop` at 0 to `jsr_w`
at 201; every higher byte is undefined.
-/

namespace ClassLinker

/-- How an instruction is laid out after its opcode byte. -/
inductive Shape where
  | fixed (length : Nat)
  | wide
  | tableSwitch
  | lookupSwitch
deriving DecidableEq, Repr

/-- What the operand of an instruction refers to. -/
inductive Operand where
  | none
  | memberSlot
  | classSlot
  | constantSlot
  | arrayType
  | dynamicSlot
deriving DecidableEq, Repr

/-- The number of an operand kind. -/
def Operand.code : Operand → Nat
  | .none => 0
  | .memberSlot => 1
  | .classSlot => 2
  | .constantSlot => 3
  | .arrayType => 4
  | .dynamicSlot => 5

/-- One row of the opcode table. -/
structure OpcodeInfo where
  name : Text
  shape : Shape
  operand : Operand
deriving DecidableEq, Repr

namespace Opcode

/-- An opcode without operand bytes. -/
def plain (name : String) : OpcodeInfo := ⟨name, .fixed 1, .none⟩

/-- An opcode of fixed length whose operand bytes refer to nothing. -/
def sized (length : Nat) (name : String) : OpcodeInfo := ⟨name, .fixed length, .none⟩

/-- An opcode of fixed length whose operand refers to something. -/
def referring (name : String) (length : Nat) (operand : Operand) : OpcodeInfo :=
  ⟨name, .fixed length, operand⟩

/-- The defined opcodes in order. -/
def table : Array OpcodeInfo := (
  ["nop", "aconst_null", "iconst_m1", "iconst_0", "iconst_1", "iconst_2", "iconst_3", "iconst_4",
    "iconst_5", "lconst_0", "lconst_1", "fconst_0", "fconst_1", "fconst_2", "dconst_0",
    "dconst_1"].map plain ++
  [sized 2 "bipush", sized 3 "sipush", referring "ldc" 2 .constantSlot,
    referring "ldc_w" 3 .constantSlot, referring "ldc2_w" 3 .constantSlot] ++
  ["iload", "lload", "fload", "dload", "aload"].map (sized 2) ++
  ["iload_0", "iload_1", "iload_2", "iload_3", "lload_0", "lload_1", "lload_2", "lload_3",
    "fload_0", "fload_1", "fload_2", "fload_3", "dload_0", "dload_1", "dload_2", "dload_3",
    "aload_0", "aload_1", "aload_2", "aload_3",
    "iaload", "laload", "faload", "daload", "aaload", "baload", "caload", "saload"].map plain ++
  ["istore", "lstore", "fstore", "dstore", "astore"].map (sized 2) ++
  ["istore_0", "istore_1", "istore_2", "istore_3", "lstore_0", "lstore_1", "lstore_2", "lstore_3",
    "fstore_0", "fstore_1", "fstore_2", "fstore_3", "dstore_0", "dstore_1", "dstore_2", "dstore_3",
    "astore_0", "astore_1", "astore_2", "astore_3",
    "iastore", "lastore", "fastore", "dastore", "aastore", "bastore", "castore", "sastore",
    "pop", "pop2", "dup", "dup_x1", "dup_x2", "dup2", "dup2_x1", "dup2_x2", "swap",
    "iadd", "ladd", "fadd", "dadd", "isub", "lsub", "fsub", "dsub",
    "imul", "lmul", "fmul", "dmul", "idiv", "ldiv", "fdiv", "ddiv",
    "irem", "lrem", "frem", "drem", "ineg", "lneg", "fneg", "dneg",
    "ishl", "lshl", "ishr", "lshr", "iushr", "lushr", "iand", "land",
    "ior", "lor", "ixor", "lxor"].map plain ++
  [sized 3 "iinc"] ++
  ["i2l", "i2f", "i2d", "l2i", "l2f", "l2d", "f2i", "f2l", "f2d", "d2i", "d2l", "d2f",
    "i2b", "i2c", "i2s", "lcmp", "fcmpl", "fcmpg", "dcmpl", "dcmpg"].map plain ++
  ["ifeq", "ifne", "iflt", "ifge", "ifgt", "ifle", "if_icmpeq", "if_icmpne",
    "if_icmplt", "if_icmpge", "if_icmpgt", "if_icmple", "if_acmpeq", "if_acmpne",
    "goto", "jsr"].map (sized 3) ++
  [sized 2 "ret", ⟨"tableswitch", .tableSwitch, .none⟩, ⟨"lookupswitch", .lookupSwitch, .none⟩] ++
  ["ireturn", "lreturn", "freturn", "dreturn", "areturn", "return"].map plain ++
  [referring "getstatic" 3 .memberSlot, referring "putstatic" 3 .memberSlot,
    referring "getfield" 3 .memberSlot, referring "putfield" 3 .memberSlot,
    referring "invokevirtual" 3 .memberSlot, referring "invokespecial" 3 .memberSlot,
    referring "invokestatic" 3 .memberSlot, referring "invokeinterface" 5 .memberSlot,
    referring "invokedynamic" 5 .dynamicSlot, referring "new" 3 .classSlot,
    referring "newarray" 2 .arrayType, referring "anewarray" 3 .classSlot,
    plain "arraylength", plain "athrow", referring "checkcast" 3 .classSlot,
    referring "instanceof" 3 .classSlot, plain "monitorenter", plain "monitorexit",
    ⟨"wide", .wide, .none⟩, referring "multianewarray" 4 .classSlot, sized 3 "ifnull",
    sized 3 "ifnonnull", sized 5 "goto_w", sized 5 "jsr_w"]).toArray

/-- The table row of an opcode; none for an undefined one. -/
def info? (op : UInt8) : Option OpcodeInfo := table[op.toNat]?

/-- The mnemonic of an opcode, empty for an undefined one. -/
def name (op : UInt8) : Text := ((info? op).map OpcodeInfo.name).getD []

/-- What the operand of an opcode refers to. -/
def operand (op : UInt8) : Operand := ((info? op).map OpcodeInfo.operand).getD .none

/-- Loads a constant through a slot of one byte. -/
def ldc : UInt8 := 0x12

/-- Increments a local variable. -/
def iinc : UInt8 := 0x84

/-- Returns from a method without a result. -/
def ret : UInt8 := 0xB1

/-- Calls a static method. -/
def invokestatic : UInt8 := 0xB8

/-- Allocates an array of a primitive type. -/
def newarray : UInt8 := 0xBC

/-- Allocates an array of objects. -/
def anewarray : UInt8 := 0xBD

end Opcode

end ClassLinker
