import PollingExpress.Shell.Tokenizer

/-!
# The line of the shell

`handle_new_char` of `shell.c`. `input` is an array of `TERMINALMAXINPUTSIZE` characters that is not
cleared here: what is behind `input_length` is what was left there.
-/

namespace PollingExpress
namespace Shell

/-- `TERMINALMAXINPUTSIZE`. -/
def terminalMaxInputSize : ℕ := 20

def backspace : Byte := 8

def enter : Byte := 13

structure Editor where
  input : List Byte
  inputLength : ℕ
  size : input.length = terminalMaxInputSize
  fits : inputLength ≤ terminalMaxInputSize

namespace Editor

/-- What can be seen of the line. -/
def line (e : Editor) : List Byte := e.input.take e.inputLength

/-- The editor after `c`, and the tokens if the line is entered. -/
def handleNewChar (e : Editor) (c : Byte) : Except Fault (Editor × Option Tokens) :=
  if h_full : e.inputLength = terminalMaxInputSize then .ok (e, none)
  else if c = backspace then
    .ok (if e.inputLength > 0 then { e with
        input := e.input.set (e.inputLength - 1) 0
        inputLength := e.inputLength - 1
        size := by rw [List.length_set, e.size]
        fits := Nat.le_trans (Nat.sub_le _ _) e.fits }
      else e, none)
  else if c = enter then
    match h : tokenizer e.input with
    | .ok (input, tokens) => .ok ({
        input
        inputLength := 0
        size := (length_tokenizer h).trans e.size
        fits := Nat.zero_le _ }, some tokens)
    | .error f => .error f
  else .ok ({
    input := e.input.set e.inputLength c
    inputLength := e.inputLength + 1
    size := by rw [List.length_set, e.size]
    fits := Nat.lt_of_le_of_ne e.fits h_full }, none)

theorem length_cleared : (List.replicate terminalMaxInputSize (0 : Byte)).length =
      terminalMaxInputSize :=
  List.length_replicate

/-- The `memset` of `input`. -/
def clear (e : Editor) : Editor where
  input := List.replicate terminalMaxInputSize 0
  inputLength := e.inputLength
  size := length_cleared
  fits := e.fits

end Editor

end Shell
end PollingExpress
