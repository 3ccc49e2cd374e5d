import DedupServer.Model.Control
import DedupServer.Model.Registry

/-! # Room for names

A name that a control message brings has at most 199 bytes. The text of the `insert` statement then
fits its array with every client id; the text of the `select` statement does if and only if the name
and the digits of the id have at most 206 characters together (`queriesFit_iff`). -/

namespace DedupServer

variable {heap : Leftover} {order : Order} {name : Bytes} {status : RepStatus}

/-- The texts that `isFileUnique` and `addFile` format fit their arrays. -/
def QueriesFit (client_id : Int32) (name : Bytes) : Prop :=
  (sprintf256 (selectQuery client_id.toInt (cString name))).isSome ∧
    (sprintf256 (insertQuery client_id.toInt (cString name))).isSome

instance (client_id : Int32) (name : Bytes) : Decidable (QueriesFit client_id name) :=
  inferInstanceAs (Decidable (_ ∧ _))

/-- A text fits with its terminator. -/
theorem isSome_sprintf256 (query : Bytes) : (sprintf256 query).isSome ↔ query.length + 1 ≤ 256 := by
  rw [sprintf256]
  split
  · simp only [Option.isSome_some, true_iff]
    omega
  · simp only [Option.isSome_none, Bool.false_eq_true, false_iff]
    omega

/-- **An `int` has at most 11 characters.** -/
theorem length_toDecimal_le (client_id : Int32) : (toDecimal client_id.toInt).length ≤ 11 := by
  have hlow : -2 ^ 31 ≤ client_id.toInt := client_id.le_toInt
  have hhigh : client_id.toInt < 2 ^ 31 := client_id.toInt_lt
  have hdigits : (Nat.toDigits 10 client_id.toInt.natAbs).length ≤ 10 := by
    rw [Nat.length_toDigits_le_iff (by decide) (by decide)]
    omega
  rw [toDecimal, List.length_append, List.length_map]
  split
  · rw [List.length_singleton]
    omega
  · rw [List.length_nil]
    omega

/-- The characters of the `select` text: 49 fixed ones, the id and the name. -/
theorem length_selectQuery (c : ℤ) (n : Bytes) :
    (selectQuery c n).length = 49 + (toDecimal c).length + n.length := by
  have hbefore : (ascii "select * from FILES where ID = ").length = 31 := rfl
  have hbetween : (ascii " and FileName = '").length = 17 := rfl
  have hafter : (ascii "'").length = 1 := rfl
  simp only [selectQuery, List.length_append, hbefore, hbetween, hafter]
  omega

/-- The characters of the `insert` text: 43 fixed ones, the id and the name. -/
theorem length_insertQuery (c : ℤ) (n : Bytes) :
    (insertQuery c n).length = 43 + (toDecimal c).length + n.length := by
  have hbefore : (ascii "insert into FILES(ID, FileName) values(").length = 39 := rfl
  have hbetween : (ascii ",'").length = 2 := rfl
  have hafter : (ascii "')").length = 2 := rfl
  simp only [insertQuery, List.length_append, hbefore, hbetween, hafter]
  omega

/-- **A name that a message can bring** has at most 199 bytes. -/
theorem length_le_of_frame (hnamed : order.Named)
    (hframe : (sendControlMessage heap order name status).length ≤ controlBufferSize) :
    name.length ≤ 199 := by
  rw [length_sendControlMessage, if_pos hnamed, controlBufferSize, sizeofControlMsg] at hframe
  omega

/-- **When the statements fit.** For every `int` client id and every name whose message fits the
receiver's buffer: both texts fit their arrays if and only if the id and the name (as `%s` prints it)
have at most 206 characters together. -/
theorem queriesFit_iff (client_id : Int32) (name : Bytes) (heap : Leftover) (order : Order)
    (status : RepStatus) (hnamed : order.Named)
    (hframe : (sendControlMessage heap order name status).length ≤ controlBufferSize) :
    QueriesFit client_id name ↔
      (toDecimal client_id.toInt).length + (cString name).length ≤ 206 := by
  have hid := length_toDecimal_le client_id
  have hname := length_le_of_frame hnamed hframe
  have hprinted : (cString name).length ≤ name.length := (List.takeWhile_sublist _).length_le
  rw [QueriesFit, isSome_sprintf256, isSome_sprintf256, length_selectQuery, length_insertQuery]
  -- only the select text is ever too long
  constructor
  · intro h
    have hselect := h.1
    omega
  · intro h
    constructor
    · omega
    · omega

/-- The name of 199 bytes fits with an id of seven digits. -/
theorem queriesFit_iff_sample :
    QueriesFit 9999999 (List.replicate 199 97) ↔
      (toDecimal (9999999 : Int32).toInt).length
        + (cString (List.replicate 199 97)).length ≤ 206 :=
  queriesFit_iff 9999999 (List.replicate 199 97) (fun _ => 0) .UPLOAD .NONE (by decide)
    (by decide +kernel)

/-- **With an id of eight digits it does not**: its message fits the receiver's buffer, and the text of
`isFileUnique` is longer than its array. -/
theorem queries_not_fit :
    (sendControlMessage (fun _ => 0) .UPLOAD (List.replicate 199 97) .NONE).length
        ≤ controlBufferSize ∧
      ¬ QueriesFit 10000000 (List.replicate 199 97) := by
  decide +kernel

end DedupServer
