import DedupServer.Model.Define

/-! # Control messages as bytes

`Util::send_control_message` and `Util::receive_control_msg` down to the memory they use. Both work on
a block from `malloc`, whose bytes are whatever the heap contained before (`Leftover`): the sender
overwrites some of them and sends the whole block, the receiver overwrites the front of its block with
what has arrived and reads the fields, and the name as a string up to its terminator.

The sessions of the development exchange whole messages (`Msg.control`); when the bytes denote them is
the subject of `Results.Control`. -/

namespace DedupServer

open Foundations

/-- `sizeof(Order_t)` and `sizeof(RepStatus_t)`. -/
def sizeofEnum : ℕ := 4

/-- `sizeof(ControlMsg_t)`: the order and the status. The data starts there. -/
def sizeofControlMsg : ℕ := 8

/-- Size of the block that `receive_control_msg` allocates. -/
def controlBufferSize : ℕ := sizeofControlMsg + 200

/-- The value of an order. -/
def Order.value : Order → ℕ
  | UPLOAD => 0
  | UPLOADREP => 1
  | DOWNLOAD => 2
  | DOWNLOADREP => 3
  | QUIT => 4
  | QUITREP => 5

/-- The order with a value, if there is one. -/
def Order.ofValue : ℕ → Option Order
  | 0 => some UPLOAD
  | 1 => some UPLOADREP
  | 2 => some DOWNLOAD
  | 3 => some DOWNLOADREP
  | 4 => some QUIT
  | 5 => some QUITREP
  | _ => none

/-- The value of a status. -/
def RepStatus.value : RepStatus → ℕ
  | NONE => 0
  | DUPLICATE => 1
  | UNIQUE => 2
  | EXIST => 3
  | NOTEXIST => 4

/-- An order is known from its value. -/
@[simp] theorem Order.ofValue_value (order : Order) : Order.ofValue order.value = some order := by
  cases order <;> rfl

/-- Every value of an order fits its field. -/
theorem Order.value_lt (order : Order) : order.value < 256 ^ sizeofEnum := by
  cases order <;> decide

/-- Every value of a status fits its field. -/
theorem RepStatus.value_lt (status : RepStatus) : status.value < 256 ^ sizeofEnum := by
  cases status <;> decide

/-- An order whose message carries a file name. -/
def Order.Named (order : Order) : Prop := order = .UPLOAD ∨ order = .DOWNLOAD

/-- An order whose message carries a status. -/
def Order.Answers (order : Order) : Prop := order = .UPLOADREP ∨ order = .DOWNLOADREP

instance (order : Order) : Decidable order.Named := inferInstanceAs (Decidable (_ ∨ _))

instance (order : Order) : Decidable order.Answers := inferInstanceAs (Decidable (_ ∨ _))

/-! ## Memory from `malloc` -/

/-- What a fresh block contains, by offset. -/
abbrev Leftover := ℕ → UInt8

/-- `malloc(n)`. -/
def malloc (heap : Leftover) (n : ℕ) : Bytes := (List.range n).map heap

@[simp] theorem length_malloc (heap : Leftover) (n : ℕ) : (malloc heap n).length = n := by
  simp [malloc]

/-- The first bytes of a block are a smaller block. -/
theorem take_malloc (heap : Leftover) {m n : ℕ} (h : m ≤ n) :
    (malloc heap n).take m = malloc heap m := by
  rw [malloc, malloc, ← List.map_take, List.take_range, min_eq_left h]

/-- The last byte of a block. -/
theorem malloc_succ (heap : Leftover) (n : ℕ) : malloc heap (n + 1) = malloc heap n ++ [heap n] := by
  simp [malloc, List.range_succ]

/-- The string that starts at the front of a block, or nothing when the block contains no terminator
and the reading goes on behind it. -/
def readCString (block : Bytes) : Option Bytes :=
  if 0 ∈ block then some (block.takeWhile (· ≠ 0)) else none

/-! ## `Util::send_control_message` and `Util::receive_control_msg` -/

/-- **`Util::send_control_message`**: the bytes it hands to `send_data`. `memcpy` copies the
characters of the name but not its terminator, for which there is one more byte in the block. -/
def sendControlMessage (heap : Leftover) (order : Order) (fileName : Bytes) (status : RepStatus) : Bytes :=
  match order with
  | .UPLOAD | .DOWNLOAD =>
    let msg := malloc heap (sizeofControlMsg + fileName.length + 1)
    let msg := overwrite msg sizeofControlMsg fileName
    overwrite msg 0 (leBytes sizeofEnum order.value)
  | .UPLOADREP | .DOWNLOADREP =>
    let msg := malloc heap sizeofControlMsg
    let msg := overwrite msg sizeofEnum (leBytes sizeofEnum status.value)
    overwrite msg 0 (leBytes sizeofEnum order.value)
  | .QUIT | .QUITREP =>
    let msg := malloc heap sizeofControlMsg
    overwrite msg 0 (leBytes sizeofEnum order.value)

/-- The variables that `receive_control_msg` takes by reference. -/
structure ControlVars where
  order : ℕ
  fileName : Bytes
  status : ℕ
  deriving DecidableEq, Repr

/-- **`Util::receive_control_msg`** on what `receive_data` has got. Nothing when the message is longer
than the block, or when the name has no terminator in the block: then memory behind it is used. -/
def receiveControlMsg (heap : Leftover) (received : Bytes) (vars : ControlVars) : Option ControlVars :=
  if controlBufferSize < received.length then none
  else
    let msg := overwrite (malloc heap controlBufferSize) 0 received
    let order := ofLeBytes (msg.take sizeofEnum)
    match Order.ofValue order with
    | some .UPLOAD | some .DOWNLOAD =>
      (readCString (msg.drop sizeofControlMsg)).map fun fileName =>
        { vars with order := order, fileName := fileName }
    | some .UPLOADREP | some .DOWNLOADREP =>
      some { vars with
        order := order
        status := ofLeBytes ((msg.drop sizeofEnum).take sizeofEnum) }
    | some .QUIT | some .QUITREP | none => some { vars with order := order }

/-! ## The layout of a message -/

variable {heap : Leftover} {order : Order} {fileName : Bytes} {status : RepStatus}

/-- **The message with a name**: the order, four bytes that are not written, the name, and the byte
that is left for its terminator. -/
theorem sendControlMessage_of_named (h : order.Named) :
    sendControlMessage heap order fileName status =
      leBytes sizeofEnum order.value ++ (malloc heap sizeofControlMsg).drop sizeofEnum ++ fileName ++
        [heap (sizeofControlMsg + fileName.length)] := by
  have hmsg : overwrite (malloc heap (sizeofControlMsg + fileName.length + 1)) sizeofControlMsg
      fileName = malloc heap sizeofControlMsg ++ fileName
        ++ [heap (sizeofControlMsg + fileName.length)] := by
    rw [overwrite, take_malloc heap (by omega), malloc_succ,
      List.drop_left' (length_malloc heap (sizeofControlMsg + fileName.length))]
  have hdrop : ∀ rest : Bytes, (malloc heap sizeofControlMsg ++ rest).drop sizeofEnum
      = (malloc heap sizeofControlMsg).drop sizeofEnum ++ rest := by
    intro rest
    rw [List.drop_append_of_le_length]
    rw [length_malloc]
    decide
  have hform : sendControlMessage heap order fileName status =
      overwrite (overwrite (malloc heap (sizeofControlMsg + fileName.length + 1)) sizeofControlMsg
        fileName) 0 (leBytes sizeofEnum order.value) := by
    rcases h with rfl | rfl <;> rfl
  rw [hform, hmsg, overwrite, List.take_zero, List.nil_append, length_leBytes, Nat.zero_add,
    List.append_assoc (malloc heap sizeofControlMsg), hdrop]
  simp only [List.append_assoc]

/-- **The message with a status**: the order and the status. -/
theorem sendControlMessage_of_answers (h : order.Answers) :
    sendControlMessage heap order fileName status =
      leBytes sizeofEnum order.value ++ leBytes sizeofEnum status.value := by
  have hform : sendControlMessage heap order fileName status =
      overwrite (overwrite (malloc heap sizeofControlMsg) sizeofEnum
        (leBytes sizeofEnum status.value)) 0 (leBytes sizeofEnum order.value) := by
    rcases h with rfl | rfl <;> rfl
  have hfull : (malloc heap sizeofControlMsg).drop (sizeofEnum + sizeofEnum) = [] := by
    rw [List.drop_eq_nil_iff, length_malloc]
    decide
  have hfront : ((malloc heap sizeofControlMsg).take sizeofEnum).length = sizeofEnum := by
    rw [List.length_take, length_malloc]
    decide
  have hstatus : overwrite (malloc heap sizeofControlMsg) sizeofEnum
      (leBytes sizeofEnum status.value) = (malloc heap sizeofControlMsg).take sizeofEnum
        ++ leBytes sizeofEnum status.value := by
    rw [overwrite, length_leBytes, hfull, List.append_nil]
  rw [hform, hstatus, overwrite, List.take_zero, List.nil_append, length_leBytes, Nat.zero_add,
    List.drop_left' hfront]

/-- **Every message starts with the order.** -/
theorem sendControlMessage_eq_append (heap : Leftover) (order : Order) (fileName : Bytes)
    (status : RepStatus) : ∃ rest,
      sendControlMessage heap order fileName status = leBytes sizeofEnum order.value ++ rest := by
  have hany : ∃ msg, sendControlMessage heap order fileName status =
      overwrite msg 0 (leBytes sizeofEnum order.value) := by
    cases order <;> exact ⟨_, rfl⟩
  obtain ⟨msg, hmsg⟩ := hany
  exact ⟨_, by rw [hmsg, overwrite, List.take_zero, List.nil_append]⟩

/-- **The size of a message**: `msgSize`. -/
theorem length_sendControlMessage : (sendControlMessage heap order fileName status).length =
    if order.Named then sizeofControlMsg + fileName.length + 1 else sizeofControlMsg := by
  by_cases hnamed : order.Named
  · rw [if_pos hnamed, sendControlMessage_of_named hnamed]
    simp only [List.length_append, length_leBytes, List.length_drop, length_malloc,
      List.length_singleton]
    rfl
  · rw [if_neg hnamed]
    by_cases hanswers : order.Answers
    · rw [sendControlMessage_of_answers hanswers, List.length_append, length_leBytes, length_leBytes]
      rfl
    · have hquit : sendControlMessage heap order fileName status =
          overwrite (malloc heap sizeofControlMsg) 0 (leBytes sizeofEnum order.value) := by
        cases order with
        | UPLOAD | DOWNLOAD => exact absurd (by decide) hnamed
        | UPLOADREP | DOWNLOADREP => exact absurd (by decide) hanswers
        | QUIT | QUITREP => rfl
      rw [hquit, length_overwrite, length_malloc]
      rw [length_malloc, length_leBytes]
      decide

/-! ## What is read from a message -/

variable {name rest : Bytes}

/-- The reading goes on through a name without terminator. -/
theorem takeWhile_append_of_noNul (h : 0 ∉ name) :
    (name ++ rest).takeWhile (· ≠ 0) = name ++ rest.takeWhile (· ≠ 0) := by
  apply List.takeWhile_append_of_pos
  intro b hb
  rw [decide_eq_true_iff]
  rintro rfl
  exact h hb

/-- A name that is followed by a terminator is the string that is read. -/
theorem readCString_append_zero (h : 0 ∉ name) : readCString (name ++ 0 :: rest) = some name := by
  rw [readCString, if_pos (by simp), takeWhile_append_of_noNul h,
    List.takeWhile_cons_of_neg (by decide), List.append_nil]

/-- **A name that another character follows** is not the string that is read. -/
theorem readCString_append_ne (h : 0 ∉ name) {b : UInt8} (hb : b ≠ 0) :
    readCString (name ++ b :: rest) ≠ some name := by
  intro hread
  rw [readCString, takeWhile_append_of_noNul h, List.takeWhile_cons_of_pos (by simpa using hb)] at hread
  split at hread
  · have hlen := congrArg List.length (Option.some.inj hread)
    simp at hlen
  · cases hread

end DedupServer
