import DedupServer.Foundations.Settling
import DedupServer.Protocol.Progress
import Mathlib.Data.Fin.VecNotation

/-! # All sessions together come to rest

A session may be given more to do by others: a download reads on in a recipe for as long as an upload
writes to it. All the same the sessions of honest clients cannot go on for ever without new ones
(`sessionRanking`): the messages to exchange count most, then the buffers to write, then the rest of the
recipes to read, which only writers make longer. -/

namespace DedupServer

open Foundations

variable {env : Env} {sv sv' : Server} {s s' : Session}

/-- What a session still has to do, the most important first: messages to send and to answer, buffers to
write, the rest of the recipe, messages to take. -/
def Session.weight (env : Env) : Fin 4 → Server → Session → ℕ :=
  ![fun _ s => s.client.work env + 5 * s.up.length + s.conn.pc.rank, fun _ s => s.conn.writing,
    fun sv s => s.conn.reading sv, fun _ s => s.down.length]

section Weights

variable (env : Env) (sv : Server) (s : Session)

@[simp] theorem Session.weight_zero :
    weight env 0 sv s = s.client.work env + 5 * s.up.length + s.conn.pc.rank := rfl

@[simp] theorem Session.weight_one : weight env 1 sv s = s.conn.writing := rfl

@[simp] theorem Session.weight_two : weight env 2 sv s = s.conn.reading sv := rfl

@[simp] theorem Session.weight_three : weight env 3 sv s = s.down.length := rfl

end Weights

/-- A session that keeps to the protocol, of an honest client. -/
def Session.Live (env : Env) (s : Session) : Prop := Phase env s ∧ s.client.rogue = false

/-- A writer writes, and changes nothing about the messages. -/
theorem Session.weight_writer {c : Conn} (hpc : c.pc = s.conn.pc) (hlt : c.writing < s.conn.writing) :
    ∃ m, weight env m sv' { s with conn := c } < weight env m sv s ∧
      (∀ j < m, weight env j sv' { s with conn := c } ≤ weight env j sv s) ∧
      ∀ j ≤ m, ∀ o, weight env j sv' o ≤ weight env j sv o := by
  refine ⟨1, hlt, fun j hj => ?_, fun j hj o => ?_⟩
  · obtain rfl : j = 0 := by omega
    simp only [weight_zero, hpc, le_refl]
  · obtain rfl | rfl : j = 0 ∨ j = 1 := by omega
    · exact le_rfl
    · exact le_rfl

/-- **Every step of an honest session takes from one of its weights.** -/
theorem Session.Live.spends (h : s.Live env) {a : Act}
    (hact : Session.act env sv s a = some (sv', s')) :
    ∃ m, Session.weight env m sv' s' < Session.weight env m sv s ∧
      (∀ j < m, Session.weight env j sv' s' ≤ Session.weight env j sv s) ∧
      ∀ j ≤ m, ∀ o, Session.weight env j sv' o ≤ Session.weight env j sv o := by
  obtain ⟨hphase, hrogue⟩ := h
  cases a with
  | client =>
    simp only [Session.act] at hact
    split at hact
    on_goal 2 => cases hact
    rename_i m rest hdown
    obtain ⟨r, hr, heq⟩ := Option.map_eq_some_iff.mp hact
    obtain ⟨rfl, rfl⟩ := Prod.mk.inj heq
    have hwork := Client.work_react hr
    -- the client has less to do, or else it has taken a message and sent none
    rcases hwork.lt_or_eq with hlt | heq
    · refine ⟨0, ?_, fun j hj => by omega, fun j hj o => le_of_eq ?_⟩
      · simp only [Session.weight_zero, Session.clientMoved, List.length_append]
        omega
      · obtain rfl : j = 0 := by omega
        rfl
    · refine ⟨3, ?_, fun j hj => ?_, fun j _ o => le_rfl⟩
      · simp [Session.clientMoved, hdown]
      · obtain rfl | rfl | rfl : j = 0 ∨ j = 1 ∨ j = 2 := by omega
        · simp only [Session.weight_zero, Session.clientMoved, List.length_append]
          omega
        · exact le_rfl
        · exact le_rfl
  -- an honest client has no such step
  | rogue chunkData hashes =>
    simp only [Session.act] at hact
    split at hact
    on_goal 2 => cases hact
    obtain ⟨r, hr, -⟩ := Option.map_eq_some_iff.mp hact
    simp [Client.rogueReact, hrogue] at hr
  | server =>
    obtain ⟨hclient, hlt | ⟨heq, rfl, hreading, hwriting⟩⟩ := Session.spends_server hact
    · refine ⟨0, ?_, fun j hj => by omega, fun j hj o => le_of_eq ?_⟩
      · simp only [Session.weight_zero, hclient]
        omega
      · obtain rfl : j = 0 := by omega
        rfl
    · refine ⟨2, hreading, fun j hj => ?_, fun j _ o => le_rfl⟩
      obtain rfl | rfl : j = 0 ∨ j = 1 := by omega
      · simp only [Session.weight_zero, hclient]
        omega
      · exact hwriting.le
  | dataWriter =>
    obtain ⟨r, hr, heq⟩ := Option.map_eq_some_iff.mp hact
    obtain ⟨rfl, rfl⟩ := Prod.mk.inj heq
    exact Session.weight_writer (Conn.alike_dataWriterStep hr).pc (Conn.writing_dataWriterStep hr)
  | recipeWriter =>
    obtain ⟨r, hr, heq⟩ := Option.map_eq_some_iff.mp hact
    obtain ⟨rfl, rfl⟩ := Prod.mk.inj heq
    obtain ⟨hidle, hjoined⟩ := Conn.not_dormant_of_recipeWriterStep hr
    refine Session.weight_writer ?_ (Conn.writing_recipeWriterStep hr)
    rcases (hphase.writing hidle hjoined).1 with ⟨-, hw⟩ | ⟨-, hw⟩
    · exact (Conn.alike_recipeWriterStep hw hr).pc
    · exact (Conn.alike_recipeWriterStep hw hr).pc

/-- **The ranking of the sessions.** -/
def sessionRanking (env : Env) : Ranking (sessions env) (Session.Live env) 4 where
  weight := Session.weight env
  spends hlive hact := hlive.spends hact

end DedupServer
