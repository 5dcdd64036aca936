import Rv64Codegen.Constant.Sequence
import Rv64Codegen.Program.Jump

namespace Rv64Codegen

/-!
# Notices

What the library reports about its decisions.  Notices are values like any
other; who wants to read them asks for their text.
-/

/-- How much detail a notice gives. -/
inductive Level where
  | debug
  | trace
  deriving Repr, DecidableEq

/-- A level as text. -/
def Level.text : Level → String
  | .debug => "DEBUG"
  | .trace => "TRACE"

/-- A reported decision. -/
inductive Notice where
  /-- A pass of relaxation is complete. -/
  | passCompleted (pass upgrades codeSize : Nat)
  /-- A jump moved to a longer form. -/
  | jumpGrew (jump : Nat) (group : GroupId) (before after : JumpState) (bytes : Nat)
  /-- The shifted form of a constant is the shorter one. -/
  | shiftedForm (value : Int64) (taken instead : Nat)
  /-- A constant goes to the data pool. -/
  | pooledConstant (value : Int64) (count limit : Nat)
  /-- A constant is built in its register. -/
  | inlineConstant (value : Int64) (sequence : Sequence)
  /-- The output is complete. -/
  | outputWritten (codeBytes dataBytes dataOffset relocations targets : Nat)
  deriving Repr, DecidableEq

namespace Notice

/-- The level of a notice. -/
def level : Notice → Level
  | .passCompleted .. => .debug
  | .jumpGrew .. => .trace
  | .shiftedForm .. => .trace
  | .pooledConstant .. => .debug
  | .inlineConstant .. => .trace
  | .outputWritten .. => .debug

/-- The wording of a notice. -/
def message : Notice → String
  | .passCompleted pass upgrades codeSize =>
      "relax pass " ++ toString pass ++ ": " ++ toString upgrades ++
        " upgrades, " ++ toString codeSize ++ " code bytes"
  | .jumpGrew jump group before after bytes =>
      "jump " ++ toString jump ++ " in " ++ group.text ++ ": " ++
        before.text ++ " -> " ++ after.text ++
        " (+" ++ toString bytes ++ " bytes)"
  | .shiftedForm value taken instead =>
      "li " ++ Text.constantHex value ++ ": srli form, " ++
        toString taken ++ " instead of " ++ toString instead ++ " instructions"
  | .pooledConstant value count limit =>
      "li " ++ Text.constantHex value ++ ": " ++ toString count ++
        " instructions exceed " ++ toString limit ++ ", using data pool"
  | .inlineConstant value sequence =>
      "li " ++ Text.constantHex value ++ ": " ++ sequence.text
  | .outputWritten codeBytes dataBytes dataOffset relocations targets =>
      "wrote " ++ toString codeBytes ++ " code bytes, " ++
        toString dataBytes ++ " data bytes at " ++ toString dataOffset ++ ", " ++
        toString relocations ++ " relocations, " ++
        toString targets ++ " branch targets"

/-- A notice as one line: its level and its wording. -/
def text (notice : Notice) : String :=
  notice.level.text ++ " " ++ notice.message

end Notice

end Rv64Codegen
