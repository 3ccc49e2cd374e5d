import DedupServer.Foundations.SqlText
import DedupServer.Model.Server

/-! # The registry in MySQL

`isFileUnique` and `addFile` as they are written: each pastes the client id and the file name into the
text of a statement and hands it to MySQL, which is a parameter. All that is assumed of it is that it reads
the two statements that the program means to send, with its rules for string literals, and executes them
(`ReadsStatements`). `mysqlQuery` does this, whatever it does with any other text.

`Server.isFileUnique` and `Server.addFile` are the registry that the rest of the development uses.
`Registry.registry_refines` is how the two are related. -/

namespace DedupServer

open Foundations

/-- The bytes of a text in the source. -/
def ascii (text : String) : Bytes := text.toList.map fun c => UInt8.ofNat c.toNat

/-- The rows of `FILES`. -/
abbrev Files := List (ℤ × Bytes)

/-! ## The statements -/

/-- The text that `isFileUnique` formats. -/
def selectQuery (client_id : ℤ) (file_name : Bytes) : Bytes :=
  ascii "select * from FILES where ID = " ++ toDecimal client_id ++ ascii " and FileName = '" ++
    file_name ++ ascii "'"

/-- The text that `addFile` formats. -/
def insertQuery (client_id : ℤ) (file_name : Bytes) : Bytes :=
  ascii "insert into FILES(ID, FileName) values(" ++ toDecimal client_id ++ ascii ",'" ++
    file_name ++ ascii "')"

/-- `char query[256]`: the text fits with its NUL, or `sprintf` writes past the buffer. -/
def sprintf256 (query : Bytes) : Option Bytes := if query.length < 256 then some query else none

/-- `file_name.c_str()` as `%s` prints it. -/
def cString (name : Bytes) : Bytes := name.takeWhile (· ≠ 0)

/-- `mysql_query`: the table after a statement, and the rows of its result, if it has one. -/
abbrev MysqlQuery := Files → Bytes → Files × Option Files

/-- **MySQL reads both statements** by its grammar of string literals, executes them, and compares strings
byte for byte. -/
structure ReadsStatements (mysql : MysqlQuery) : Prop where
  select : ∀ files client_id file_name value, literalValue file_name = some value →
    mysql files (selectQuery client_id file_name) = (files, some (files.filter (· = (client_id, value))))
  insert : ∀ files client_id file_name value, literalValue file_name = some value →
    mysql files (insertQuery client_id file_name) = (files ++ [(client_id, value)], none)

/-! ## `MysqlConn` and `DedupServer` -/

section

variable (mysql : MysqlQuery) (files : Files)

/-- `MysqlConn::hasResult`, which keeps the number of rows in an `int`. A statement without a result gives a
null pointer to `mysql_num_rows`. -/
def hasResult (query : Bytes) : Option Bool :=
  (mysql files query).2.map fun rows => decide (rows.length % 2 ^ 32 ≠ 0)

/-- `MysqlConn::executeInsertion`. -/
def executeInsertion (query : Bytes) : Files := (mysql files query).1

namespace Registry

/-- `DedupServer::isFileUnique`. -/
def isFileUnique (client_id : ℤ) (file_name : Bytes) : Option Bool := do
  let query ← sprintf256 (selectQuery client_id (cString file_name))
  let result ← hasResult mysql files query
  some !result

/-- `DedupServer::addFile`. -/
def addFile (client_id : ℤ) (file_name : Bytes) : Option Files := do
  let query ← sprintf256 (insertQuery client_id (cString file_name))
  some (executeInsertion mysql files query)

/-- The table after a sequence of `addFile` calls. -/
def addFiles (calls : List (ℤ × Bytes)) : Option Files :=
  calls.foldlM (fun files call => addFile mysql files call.1 call.2) files

end Registry

end

/-- A name that can be sent: it has no NUL, and both statements fit their buffers. -/
structure Sendable (client_id : ℤ) (file_name : Bytes) : Prop where
  noNul : 0 ∉ file_name
  select : (selectQuery client_id file_name).length < 256
  insert : (insertQuery client_id file_name).length < 256

/-! ## Reading the statements back -/

variable {mysql : MysqlQuery} {files : Files} {c : ℤ} {n value : Bytes}

theorem cString_of_noNul (h : 0 ∉ n) : cString n = n := by
  rw [cString, List.takeWhile_eq_self_iff]
  intro b hb
  have hne : b ≠ 0 := fun hb0 => h (hb0 ▸ hb)
  simpa using hne

/-- A statement about `FILES`, as MySQL understands it. -/
inductive Statement
  | select (id : ℤ) (fileName : Bytes)
  | insert (id : ℤ) (fileName : Bytes)

/-- A text with an integer and a string literal in three fixed pieces. -/
def readForm (before between after query : Bytes) : Option (ℤ × Bytes) := do
  let rest ← afterText before query
  let (id, rest) ← readInt rest
  let rest ← afterText between rest
  let (fileName, rest) ← readLiteral rest
  if rest = after then some (id, fileName) else none

/-- The two statements that the program means to send, read from their text. -/
def readStatement (query : Bytes) : Option Statement :=
  match readForm (ascii "select * from FILES where ID = ") (ascii " and FileName = '") [] query with
  | some (id, fileName) => some (.select id fileName)
  | none =>
    (readForm (ascii "insert into FILES(ID, FileName) values(") (ascii ",'") (ascii ")") query).map
      fun (id, fileName) => .insert id fileName

/-- **A MySQL** that reads the two statements. -/
def mysqlQuery (other : MysqlQuery) (files : Files) (query : Bytes) : Files × Option Files :=
  match readStatement query with
  | some (.select id fileName) => (files, some (files.filter (· = (id, fileName))))
  | some (.insert id fileName) => (files ++ [(id, fileName)], none)
  | none => other files query

/-- `%d` reads back. -/
theorem readInt_toDecimal (c : ℤ) {rest : Bytes}
    (hrest : ∀ b, rest.head? = some b → isDigitByte b = false) :
    readInt (toDecimal c ++ rest) = some (c, rest) :=
  readInt_append c hrest

/-- **A statement reads back**, with the string that the name denotes. -/
theorem readForm_append {before between after : Bytes}
    (hbetween : ∀ rest : Bytes, ∀ b, (between ++ rest).head? = some b → isDigitByte b = false)
    (hafter : after.head? ≠ some quote) (h : literalValue n = some value) :
    readForm before between after
      (before ++ toDecimal c ++ between ++ n ++ (quote :: after)) = some (c, value) := by
  have htext : before ++ toDecimal c ++ between ++ n ++ (quote :: after) =
      before ++ (toDecimal c ++ (between ++ (n ++ quote :: after))) := by
    simp only [List.append_assoc]
  rw [readForm, htext, afterText_append]
  simp only [Option.bind_eq_bind, Option.bind_some]
  rw [readInt_toDecimal c (hbetween _)]
  simp only [Option.bind_some, afterText_append]
  rw [readLiteral_append h hafter]
  simp

/-- The `select` statement reads back. -/
theorem readStatement_select (h : literalValue n = some value) :
    readStatement (selectQuery c n) = some (.select c value) := by
  have hform : readForm (ascii "select * from FILES where ID = ") (ascii " and FileName = '") []
      (selectQuery c n) = some (c, value) := by
    apply readForm_append _ _ h
    · rintro rest b ⟨⟩
      decide
    · simp
  rw [readStatement, hform]

/-- The `insert` statement reads back. -/
theorem readStatement_insert (h : literalValue n = some value) :
    readStatement (insertQuery c n) = some (.insert c value) := by
  have hselect : readForm (ascii "select * from FILES where ID = ") (ascii " and FileName = '") []
      (insertQuery c n) = none := rfl
  have hform : readForm (ascii "insert into FILES(ID, FileName) values(") (ascii ",'") (ascii ")")
      (insertQuery c n) = some (c, value) := by
    apply readForm_append _ _ h
    · rintro rest b ⟨⟩
      decide
    · decide
  rw [readStatement, hselect, hform]
  rfl

/-- **It reads them**, whatever it does with other texts. -/
theorem readsStatements_mysqlQuery (other : MysqlQuery) : ReadsStatements (mysqlQuery other) where
  select files client_id file_name value h := by
    rw [mysqlQuery, readStatement_select h]
  insert files client_id file_name value h := by
    rw [mysqlQuery, readStatement_insert h]

namespace Registry

/-- **`isFileUnique` counts the rows with the string that the name denotes**, modulo `2 ^ 32`. -/
theorem isFileUnique_eq (hmysql : ReadsStatements mysql) (hn : Sendable c n)
    (h : literalValue n = some value) :
    isFileUnique mysql files c n = some (decide (files.count (c, value) % 2 ^ 32 = 0)) := by
  rw [isFileUnique, cString_of_noNul hn.noNul, sprintf256, if_pos hn.select]
  simp only [Option.bind_eq_bind, Option.bind_some, hasResult, hmysql.select _ _ _ _ h, Option.map_some]
  have hcount : (files.filter fun row => row = (c, value)).length = files.count (c, value) := by
    simp only [List.count_eq_length_filter, beq_eq_decide]
  rw [hcount]
  simp

/-- **`addFile` inserts the string that the name denotes.** -/
theorem addFile_eq (hmysql : ReadsStatements mysql) (hn : Sendable c n) (h : literalValue n = some value) :
    addFile mysql files c n = some (files ++ [(c, value)]) := by
  rw [addFile, cString_of_noNul hn.noNul, sprintf256, if_pos hn.insert]
  simp only [Option.bind_eq_bind, Option.bind_some, executeInsertion, hmysql.insert _ _ _ _ h]

/-- What the calls leave in the table: the strings that their names denote. -/
theorem addFiles_eq (hmysql : ReadsStatements mysql) {calls : List (ℤ × Bytes)}
    (hcalls : ∀ call ∈ calls, Sendable call.1 call.2 ∧ (literalValue call.2).isSome) :
    addFiles mysql files calls =
      some (files ++ calls.map fun call => (call.1, (literalValue call.2).getD [])) := by
  induction calls generalizing files with
  | nil => simp [addFiles]
  | cons call calls ih =>
    obtain ⟨hsend, hsome⟩ := hcalls call List.mem_cons_self
    obtain ⟨value, hvalue⟩ := Option.isSome_iff_exists.mp hsome
    have hrest : addFiles mysql (files ++ [(call.1, value)]) calls = _ :=
      ih (fun m hm => hcalls m (List.mem_cons_of_mem _ hm))
    rw [addFiles] at hrest ⊢
    rw [List.foldlM_cons, addFile_eq hmysql hsend hvalue, Option.bind_eq_bind, Option.bind_some, hrest,
      List.map_cons, hvalue, Option.getD_some, List.append_assoc]
    rfl

/-- A name without quotes and backslashes. -/
def Plain (name : Bytes) : Prop := quote ∉ name ∧ backslash ∉ name

/-- **With plain names MySQL is the registry of the sessions**: the table is that of
`Server.addFile`, and the look-up of a table with less than `2 ^ 32` rows is `Server.isFileUnique`. -/
theorem registry_refines (hmysql : ReadsStatements mysql) {calls : List (ℤ × Bytes)} (sv : Server)
    (hcalls : ∀ call ∈ calls, Sendable call.1 call.2 ∧ Plain call.2) (hn : Sendable c n)
    (hplain : Plain n) (hrows : sv.files.length < 2 ^ 32) :
    addFiles mysql sv.files calls =
        some (calls.foldl (fun sv call => sv.addFile call.1 call.2) sv).files ∧
      isFileUnique mysql sv.files c n = some (sv.isFileUnique c n) := by
  constructor
  · rw [addFiles_eq hmysql]
    · congr 1
      clear hrows
      induction calls generalizing sv with
      | nil => simp
      | cons call calls ih =>
        have hcall := (hcalls call List.mem_cons_self).2
        have hrest := ih (sv.addFile call.1 call.2)
          (fun m hm => hcalls m (List.mem_cons_of_mem _ hm))
        rw [List.foldl_cons, ← hrest, List.map_cons, literalValue_of_plain hcall.1 hcall.2,
          Server.addFile, List.append_assoc]
        rfl
    · intro call hcall
      obtain ⟨hsend, hcallPlain⟩ := hcalls call hcall
      rw [literalValue_of_plain hcallPlain.1 hcallPlain.2]
      exact ⟨hsend, rfl⟩
  · have hcount : sv.files.count (c, n) % 2 ^ 32 = sv.files.count (c, n) :=
      Nat.mod_eq_of_lt (List.count_le_length.trans_lt hrows)
    rw [isFileUnique_eq hmysql hn (literalValue_of_plain hplain.1 hplain.2), hcount, Server.isFileUnique]
    simp only [List.count_eq_zero]

end Registry

end DedupServer
