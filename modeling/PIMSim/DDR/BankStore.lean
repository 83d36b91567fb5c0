import PIMSim.DDR.DRAMConfig
import PIMSim.Library.Arrays

/-!
# The data store of a bank

With storage enabled a bank keeps what has been written to it: a list with an entry for every column,
each of them the head of a linked list with a node for every row that has been written.

The list of the columns is declared and never created. The search for a row compares the row of the
head, as often as the head has nodes, and does not look at the nodes.

## Main definitions

* `DataStruct`, `Bank`: the linked lists and the bank
* `Bank.read`, `Bank.write`: the operations
* `Access`, `Bank.run`: a run of bus packets, with the data that the reads return
* `answers`: what the reads of a store return
* `Lawful`: a run returns what a store returns

## Main results

* `lawful_iff`: a run of packets is lawful exactly when it is empty
* `read_of_head_ne`: a created list would only find the rows of its heads
-/

namespace PIMSim.DDR

open CSharp

/-- A node of a linked list, which is a linked list itself. -/
structure DataStruct where
  row : Int := 0
  data : UInt64 := 0
  items : List DataStruct := []

/-- The settings that a bank reads. -/
structure StorageSettings where
  bl : UInt32
  jedecDataBusBits : UInt32
  numCols : UInt32
deriving DecidableEq

/-- The data of a row that has not been written. -/
def StorageSettings.garbage (cfg : StorageSettings) : UInt64 :=
  (cfg.bl * (cfg.jedecDataBusBits / 8)).toUInt64

/-- The store of a bank, with the list of its columns or null. The constructor does not create it. -/
structure Bank where
  rowEntries : Option (List DataStruct) := none

/-- The search compares the head once for each of its nodes. -/
def searchForRow (row : Int) (head : DataStruct) : Option DataStruct :=
  (List.range head.items.length).findSome? fun _ => if head.row = row then some head else none

namespace Bank

variable (cfg : StorageSettings)

def read (b : Bank) (busPacket : BusPacket) : Outcome BusPacket := do
  let rowEntries ← deref b.rowEntries
  let rowHeadNode ← listAt rowEntries (toInt busPacket.column)
  let data := match searchForRow (toInt busPacket.row) rowHeadNode with
    | none => cfg.garbage
    | some foundNode => foundNode.data
  return { busPacket with data, busPacketType := .data }

def write (b : Bank) (busPacket : BusPacket) : Outcome Bank :=
  if cfg.numCols.toNat ≤ busPacket.column then .error (.exit (-1))
  else do
    let rowEntries ← deref b.rowEntries
    let rowHeadNode ← listAt rowEntries (toInt busPacket.column)
    let row := toInt busPacket.row
    let rowHeadNode := match searchForRow row rowHeadNode with
      | none => { rowHeadNode with items := { row, data := busPacket.data } :: rowHeadNode.items }
      | some foundNode => { foundNode with data := busPacket.data }
    return ⟨some (rowEntries.set busPacket.column rowHeadNode)⟩

end Bank

/-! ### Runs -/

/-- A bus packet that the bank reads for, or writes. -/
inductive Access
  | read (busPacket : BusPacket)
  | write (busPacket : BusPacket)

namespace Bank

variable (cfg : StorageSettings)

/-- An access, with the data that it returns. -/
def access (b : Bank) : Access → Outcome (Bank × List UInt64)
  | .read busPacket => do
    let returned ← b.read cfg busPacket
    return (b, [returned.data])
  | .write busPacket => do
    return (← b.write cfg busPacket, [])

/-- A run of accesses, with the data that the reads return. -/
def run (b : Bank) : List Access → Outcome (Bank × List UInt64)
  | [] => return (b, [])
  | a :: as => do
    let (b, data) ← b.access cfg a
    let (b, more) ← b.run as
    return (b, data ++ more)

end Bank

/-- What the reads of a store return: the store is a table over the rows and columns, and a write
changes the place that it names. -/
def answers (store : ℕ × ℕ → UInt64) : List Access → List UInt64
  | [] => []
  | .read p :: as => store (p.row, p.column) :: answers store as
  | .write p :: as => answers (Function.update store (p.row, p.column) p.data) as

/-- A bank returns for the accesses what a store does that holds the initial value everywhere. -/
def Lawful (cfg : StorageSettings) (as : List Access) : Prop :=
  ∃ b, Bank.run cfg {} as = .ok (b, answers (fun _ => cfg.garbage) as)

/-- No access of a bank returns. -/
theorem access_ne_ok (cfg : StorageSettings) (a : Access) (r : Bank × List UInt64) :
    Bank.access cfg {} a ≠ .ok r := by
  intro h
  cases a with
  | read p =>
    obtain ⟨returned, hread, -⟩ := Outcome.bind_eq_ok.mp h
    cases hread
  | write p =>
    obtain ⟨b, hwrite, -⟩ := Outcome.bind_eq_ok.mp h
    unfold Bank.write at hwrite
    split_ifs at hwrite
    cases hwrite

/-- **The store law** holds of a run exactly when there is no access. -/
theorem lawful_iff (cfg : StorageSettings) (as : List Access) : Lawful cfg as ↔ as = [] := by
  constructor
  · rintro ⟨b, hrun⟩
    cases as with
    | nil => rfl
    | cons a as =>
      obtain ⟨r, haccess, -⟩ := Outcome.bind_eq_ok.mp hrun
      exact absurd haccess (access_ne_ok cfg a r)
  · rintro rfl
    exact ⟨{}, rfl⟩

/-- The first write already stops the program. -/
theorem not_lawful_write : ¬ ∀ cfg as, Lawful cfg as := by
  intro h
  obtain ⟨b, hrun⟩ := h ⟨8, 64, 16⟩ [.write { busPacketType := .write, row := 3, column := 5, data := 7 }]
  obtain ⟨r, haccess, -⟩ := Outcome.bind_eq_ok.mp hrun
  exact access_ne_ok _ _ r haccess

/-! ### The search -/

/-- The search finds the head if it is for its row, and has nodes. -/
theorem searchForRow_eq (row : Int) (head : DataStruct) :
    searchForRow row head = if head.row = row ∧ head.items ≠ [] then some head else none := by
  unfold searchForRow
  cases hitems : head.items with
  | nil => simp
  | cons n items =>
    by_cases hrow : head.row = row
    · simp [hrow, List.range_succ_eq_map]
    · simp [hrow]

/-- **A created list** would only find the rows of its heads: every other row reads as if it had not been
written, whatever the nodes are. -/
theorem read_of_head_ne (cfg : StorageSettings) {entries : List DataStruct} {head : DataStruct}
    {p : BusPacket} (hhead : listAt entries (toInt p.column) = .ok head) (hrow : head.row ≠ toInt p.row) :
    Bank.read cfg ⟨some entries⟩ p = .ok { p with data := cfg.garbage, busPacketType := .data } := by
  have hsearch : searchForRow (toInt p.row) head = none := by
    rw [searchForRow_eq]
    exact if_neg fun h => hrow h.1
  have hderef : deref (some entries) = .ok entries := rfl
  unfold Bank.read
  rw [hderef, Outcome.ok_bind, hhead, Outcome.ok_bind, hsearch]
  rfl

end PIMSim.DDR
