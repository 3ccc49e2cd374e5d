import DedupServer.Model.Control

/-! # Control messages get across

A control message is decoded to what was encoded, except for one byte. The sender makes room for the
terminator of the file name but does not write it, and the receiver reads the name up to a terminator:
the name gets across if and only if that byte of the sender's block was zero before
(`controlMsg_getsAcross_iff`). What the receiver's block contained does not matter. -/

namespace DedupServer

open Foundations

variable {sender receiver : Leftover} {order : Order} {fileName body : Bytes} {status : RepStatus}
  {vars : ControlVars}

/-- **The message gets across**: the receiver has the order, the file name of an order that names a
file, and the status of an order that answers. -/
def GetsAcross (sender receiver : Leftover) (order : Order) (fileName : Bytes) (status : RepStatus) :
    Prop :=
  ∀ vars, ∃ got,
    receiveControlMsg receiver (sendControlMessage sender order fileName status) vars = some got ∧
      Order.ofValue got.order = some order ∧
      (order.Named → got.fileName = fileName) ∧
      (order.Answers → got.status = status.value)

/-- The order is read from the front of the message. -/
theorem ofLeBytes_order (order : Order) (rest : Bytes) :
    ofLeBytes ((leBytes sizeofEnum order.value ++ rest).take sizeofEnum) = order.value := by
  rw [List.take_left' (length_leBytes _ _), ofLeBytes_leBytes, Nat.mod_eq_of_lt order.value_lt]

/-- The message is at the front of the receiver's block. -/
theorem overwrite_receiver (frame : Bytes) :
    overwrite (malloc receiver controlBufferSize) 0 frame =
      frame ++ (malloc receiver controlBufferSize).drop frame.length := by
  rw [overwrite, List.take_zero, List.nil_append, Nat.zero_add]

/-- **A message with a name** is read as the string that starts behind the status. -/
theorem receiveControlMsg_of_named (h : order.Named) {unset : Bytes}
    (hunset : unset.length = sizeofEnum)
    (hlen : (leBytes sizeofEnum order.value ++ unset ++ body).length ≤ controlBufferSize) :
    ∃ behind, receiveControlMsg receiver (leBytes sizeofEnum order.value ++ unset ++ body) vars =
      (readCString (body ++ behind)).map fun name =>
        { vars with order := order.value, fileName := name } := by
  have hfront : (leBytes sizeofEnum order.value ++ unset).length = sizeofControlMsg := by
    rw [List.length_append, length_leBytes, hunset]
    rfl
  refine ⟨(malloc receiver controlBufferSize).drop
    (leBytes sizeofEnum order.value ++ unset ++ body).length, ?_⟩
  rw [receiveControlMsg, if_neg (by omega), overwrite_receiver]
  simp only [List.append_assoc]
  rw [ofLeBytes_order, Order.ofValue_value, ← List.append_assoc, List.drop_left' hfront]
  rcases h with rfl | rfl <;> rfl

/-- **A message with a status** is read as this status. -/
theorem receiveControlMsg_of_answers (h : order.Answers) :
    receiveControlMsg receiver (leBytes sizeofEnum order.value ++ leBytes sizeofEnum status.value) vars
      = some { vars with order := order.value, status := status.value } := by
  have hstatus : ∀ rest : Bytes, ofLeBytes ((((leBytes sizeofEnum order.value
      ++ (leBytes sizeofEnum status.value ++ rest)).drop sizeofEnum)).take sizeofEnum)
      = status.value := by
    intro rest
    rw [List.drop_left' (length_leBytes _ _), List.take_left' (length_leBytes _ _),
      ofLeBytes_leBytes, Nat.mod_eq_of_lt status.value_lt]
  have hlen : ¬ controlBufferSize <
      (leBytes sizeofEnum order.value ++ leBytes sizeofEnum status.value).length := by
    rw [List.length_append, length_leBytes, length_leBytes]
    decide
  rw [receiveControlMsg, if_neg hlen, overwrite_receiver]
  simp only [List.append_assoc]
  rw [ofLeBytes_order, Order.ofValue_value, hstatus]
  rcases h with rfl | rfl <;> rfl

/-- **Any other message** is read as its order. -/
theorem receiveControlMsg_of_plain (hnamed : ¬ order.Named) (hanswers : ¬ order.Answers)
    {rest : Bytes} (hlen : (leBytes sizeofEnum order.value ++ rest).length ≤ controlBufferSize) :
    receiveControlMsg receiver (leBytes sizeofEnum order.value ++ rest) vars =
      some { vars with order := order.value } := by
  rw [receiveControlMsg, if_neg (by omega), overwrite_receiver]
  simp only [List.append_assoc]
  rw [ofLeBytes_order, Order.ofValue_value]
  cases order with
  | UPLOAD | DOWNLOAD => exact absurd (by decide) hnamed
  | UPLOADREP | DOWNLOADREP => exact absurd (by decide) hanswers
  | QUIT | QUITREP => rfl

/-- **When control messages get across.** For every order, every status, every file name of at most 199
bytes without NUL, and whatever the two blocks contained: the receiver reads what was sent if and only
if, for an order that names a file, the byte of the sender's block behind the name was zero. -/
theorem controlMsg_getsAcross_iff (order : Order) (fileName : Bytes) (status : RepStatus)
    (sender receiver : Leftover) (hnul : 0 ∉ fileName) (hlen : fileName.length ≤ 199) :
    GetsAcross sender receiver order fileName status ↔
      (order.Named → sender (sizeofControlMsg + fileName.length) = 0) := by
  have hsize : (sendControlMessage sender order fileName status).length ≤ controlBufferSize := by
    rw [length_sendControlMessage, controlBufferSize, sizeofControlMsg]
    split
    · omega
    · omega
  by_cases hnamed : order.Named
  · -- the byte behind the name decides what string is read
    obtain ⟨last, hlast⟩ : ∃ b, b = sender (sizeofControlMsg + fileName.length) := ⟨_, rfl⟩
    have hunset : ((malloc sender sizeofControlMsg).drop sizeofEnum).length = sizeofEnum := by
      rw [List.length_drop, length_malloc]
      rfl
    have hplain : ¬ order.Answers := by
      rcases hnamed with rfl | rfl
      · decide
      · decide
    rw [sendControlMessage_of_named hnamed, ← hlast, List.append_assoc _ fileName] at hsize
    have hread : ∀ vars, ∃ behind, receiveControlMsg receiver
        (sendControlMessage sender order fileName status) vars =
          (readCString (fileName ++ last :: behind)).map fun name =>
            { vars with order := order.value, fileName := name } := by
      intro vars
      rw [sendControlMessage_of_named hnamed, ← hlast, List.append_assoc _ fileName]
      obtain ⟨behind, h⟩ := receiveControlMsg_of_named hnamed hunset hsize
      refine ⟨behind, ?_⟩
      rw [h, List.append_assoc, List.singleton_append]
    rw [← hlast]
    constructor
    · intro h _
      obtain ⟨got, hgot, -, hname, -⟩ := h ⟨0, [], 0⟩
      obtain ⟨behind, hread⟩ := hread ⟨0, [], 0⟩
      rw [hread] at hgot
      obtain ⟨name, hstring, hvars⟩ := Option.map_eq_some_iff.mp hgot
      have heq : name = fileName := by
        rw [← hname hnamed, ← hvars]
      by_contra hne
      exact readCString_append_ne hnul hne (heq ▸ hstring)
    · intro h vars
      obtain ⟨behind, hread⟩ := hread vars
      rw [h hnamed, readCString_append_zero hnul] at hread
      exact ⟨_, hread, Order.ofValue_value order, fun _ => rfl, fun ha => absurd ha hplain⟩
  · constructor
    · intro _ hn
      exact absurd hn hnamed
    · intro _ vars
      by_cases hanswers : order.Answers
      · rw [sendControlMessage_of_answers hanswers]
        exact ⟨_, receiveControlMsg_of_answers hanswers, Order.ofValue_value order,
          fun hn => absurd hn hnamed, fun _ => rfl⟩
      · obtain ⟨rest, hrest⟩ := sendControlMessage_eq_append sender order fileName status
        rw [hrest] at hsize ⊢
        exact ⟨_, receiveControlMsg_of_plain hnamed hanswers hsize, Order.ofValue_value order,
          fun hn => absurd hn hnamed, fun ha => absurd ha hanswers⟩

/-- The name `a` gets across when the sender's block was zero, whatever the receiver's was. -/
theorem controlMsg_getsAcross_zeroed :
    GetsAcross (fun _ => 0) (fun _ => 7) .UPLOAD [97] .NONE :=
  (controlMsg_getsAcross_iff .UPLOAD [97] .NONE (fun _ => 0) (fun _ => 7) (by decide)
    (by decide)).mpr fun _ => rfl

/-- **A byte left in the sender's block becomes part of the name**: `a` arrives as two characters. -/
theorem not_getsAcross :
    (receiveControlMsg (fun _ => 0) (sendControlMessage (fun _ => 1) .UPLOAD [97] .NONE) ⟨0, [], 0⟩).map
        ControlVars.fileName = some [97, 1] ∧
      ¬ GetsAcross (fun _ => 1) (fun _ => 0) .UPLOAD [97] .NONE := by
  have hread : (receiveControlMsg (fun _ => 0)
      (sendControlMessage (fun _ => 1) .UPLOAD [97] .NONE) ⟨0, [], 0⟩).map ControlVars.fileName
        = some [97, 1] := by
    decide +kernel
  refine ⟨hread, fun h => ?_⟩
  obtain ⟨got, hgot, -, hname, -⟩ := h ⟨0, [], 0⟩
  rw [hgot, Option.map_some, hname (by decide)] at hread
  exact absurd hread (by decide)

end DedupServer
