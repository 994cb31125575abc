import Fdistdump.Output.FieldToStr
import Fdistdump.Output.PrintBatch
import Fdistdump.Slave.ProcessFile
import Mathlib.Data.UInt
import Mathlib.Tactic.FinCases

/-!
# The counters of the summaries

`struct processed_summ` and `struct metadata_summ` member by member: how a thread updates them, how it
adds them to the counters of its slave, the arrays that are reduced and what the master prints.
-/

namespace Fdistdump.Summary
open Slave Output

variable {R : Type}

/-- The members of `struct processed_summ`. -/
inductive Volume
  | flows
  | pkts
  | bytes
deriving DecidableEq, Repr

/-- The counters that `lnf_info` yields, `LNF_INFO_FLOWS` to `LNF_INFO_BYTES_OTHER`. -/
inductive LnfInfo
  | flows
  | flowsTcp
  | flowsUdp
  | flowsIcmp
  | flowsOther
  | packets
  | packetsTcp
  | packetsUdp
  | packetsIcmp
  | packetsOther
  | bytes
  | bytesTcp
  | bytesUdp
  | bytesIcmp
  | bytesOther
deriving DecidableEq, Repr

/-- `struct metadata_summ`; the array of its counters is `Slave.MetadataSumm`. -/
structure MetadataSumm where
  flows : UInt64
  flowsTcp : UInt64
  flowsUdp : UInt64
  flowsIcmp : UInt64
  flowsOther : UInt64
  pkts : UInt64
  pktsTcp : UInt64
  pktsUdp : UInt64
  pktsIcmp : UInt64
  pktsOther : UInt64
  bytes : UInt64
  bytesTcp : UInt64
  bytesUdp : UInt64
  bytesIcmp : UInt64
  bytesOther : UInt64
deriving DecidableEq, Repr

def LnfInfo.index : LnfInfo → Fin 15
  | .flows => 0
  | .flowsTcp => 1
  | .flowsUdp => 2
  | .flowsIcmp => 3
  | .flowsOther => 4
  | .packets => 5
  | .packetsTcp => 6
  | .packetsUdp => 7
  | .packetsIcmp => 8
  | .packetsOther => 9
  | .bytes => 10
  | .bytesTcp => 11
  | .bytesUdp => 12
  | .bytesIcmp => 13
  | .bytesOther => 14

def lnfInfo (file : FlowFile R) (info : LnfInfo) : UInt64 := file.metadata info.index

/-- The member of `struct metadata_summ` that belongs to a counter of a file. -/
def MetadataSumm.counter (s : MetadataSumm) : LnfInfo → UInt64
  | .flows => s.flows
  | .flowsTcp => s.flowsTcp
  | .flowsUdp => s.flowsUdp
  | .flowsIcmp => s.flowsIcmp
  | .flowsOther => s.flowsOther
  | .packets => s.pkts
  | .packetsTcp => s.pktsTcp
  | .packetsUdp => s.pktsUdp
  | .packetsIcmp => s.pktsIcmp
  | .packetsOther => s.pktsOther
  | .bytes => s.bytes
  | .bytesTcp => s.bytesTcp
  | .bytesUdp => s.bytesUdp
  | .bytesIcmp => s.bytesIcmp
  | .bytesOther => s.bytesOther

def processedCounter (s : ProcessedSumm) : Volume → UInt64
  | .flows => s.flows
  | .pkts => s.pkts
  | .bytes => s.bytes

/-! ### A file -/

def metadataSummUpdate (ms : MetadataSumm) (file : FlowFile R) : MetadataSumm where
  flows := ms.flows + lnfInfo file .flows
  flowsTcp := ms.flowsTcp + lnfInfo file .flowsTcp
  flowsUdp := ms.flowsUdp + lnfInfo file .flowsUdp
  flowsIcmp := ms.flowsIcmp + lnfInfo file .flowsIcmp
  flowsOther := ms.flowsOther + lnfInfo file .flowsOther
  pkts := ms.pkts + lnfInfo file .packets
  pktsTcp := ms.pktsTcp + lnfInfo file .packetsTcp
  pktsUdp := ms.pktsUdp + lnfInfo file .packetsUdp
  pktsIcmp := ms.pktsIcmp + lnfInfo file .packetsIcmp
  pktsOther := ms.pktsOther + lnfInfo file .packetsOther
  bytes := ms.bytes + lnfInfo file .bytes
  bytesTcp := ms.bytesTcp + lnfInfo file .bytesTcp
  bytesUdp := ms.bytesUdp + lnfInfo file .bytesUdp
  bytesIcmp := ms.bytesIcmp + lnfInfo file .bytesIcmp
  bytesOther := ms.bytesOther + lnfInfo file .bytesOther

theorem metadataSummUpdate_counter (ms : MetadataSumm) (file : FlowFile R) (info : LnfInfo) :
    (metadataSummUpdate ms file).counter info = ms.counter info + lnfInfo file info := by
  cases info <;> rfl

theorem processedSummUpdate_counter (ps volume : ProcessedSumm) (v : Volume) :
    processedCounter (processedSummUpdate ps volume) v =
      processedCounter ps v + processedCounter volume v := by
  cases v <;> rfl

/-! ### Sharing

Every counter is added by an atomic operation of its own. -/

/-- The atomic additions of `processed_summ_share`. -/
def processedSummShare (shared priv : ProcessedSumm) : Volume → ProcessedSumm
  | .flows => { shared with flows := shared.flows + priv.flows }
  | .pkts => { shared with pkts := shared.pkts + priv.pkts }
  | .bytes => { shared with bytes := shared.bytes + priv.bytes }

/-- The atomic additions of `metadata_summ_share`. -/
def metadataSummShare (shared priv : MetadataSumm) : LnfInfo → MetadataSumm
  | .flows => { shared with flows := shared.flows + priv.flows }
  | .flowsTcp => { shared with flowsTcp := shared.flowsTcp + priv.flowsTcp }
  | .flowsUdp => { shared with flowsUdp := shared.flowsUdp + priv.flowsUdp }
  | .flowsIcmp => { shared with flowsIcmp := shared.flowsIcmp + priv.flowsIcmp }
  | .flowsOther => { shared with flowsOther := shared.flowsOther + priv.flowsOther }
  | .packets => { shared with pkts := shared.pkts + priv.pkts }
  | .packetsTcp => { shared with pktsTcp := shared.pktsTcp + priv.pktsTcp }
  | .packetsUdp => { shared with pktsUdp := shared.pktsUdp + priv.pktsUdp }
  | .packetsIcmp => { shared with pktsIcmp := shared.pktsIcmp + priv.pktsIcmp }
  | .packetsOther => { shared with pktsOther := shared.pktsOther + priv.pktsOther }
  | .bytes => { shared with bytes := shared.bytes + priv.bytes }
  | .bytesTcp => { shared with bytesTcp := shared.bytesTcp + priv.bytesTcp }
  | .bytesUdp => { shared with bytesUdp := shared.bytesUdp + priv.bytesUdp }
  | .bytesIcmp => { shared with bytesIcmp := shared.bytesIcmp + priv.bytesIcmp }
  | .bytesOther => { shared with bytesOther := shared.bytesOther + priv.bytesOther }

structure Summ where
  processedSumm : ProcessedSumm
  metadataSumm : MetadataSumm
deriving DecidableEq, Repr

inductive Counter
  | processed (volume : Volume)
  | metadata (info : LnfInfo)
deriving DecidableEq, Repr

def Summ.counter (s : Summ) : Counter → UInt64
  | .processed volume => processedCounter s.processedSumm volume
  | .metadata info => s.metadataSumm.counter info

/-- The counters in the order in which a thread shares them. -/
def shareOrder : List Counter :=
  [Volume.flows, .pkts, .bytes].map Counter.processed ++
    [LnfInfo.flows, .flowsTcp, .flowsUdp, .flowsIcmp, .flowsOther, .packets, .packetsTcp, .packetsUdp,
      .packetsIcmp, .packetsOther, .bytes, .bytesTcp, .bytesUdp, .bytesIcmp, .bytesOther].map
        Counter.metadata

def Summ.share (shared priv : Summ) : Counter → Summ
  | .processed volume =>
    { shared with processedSumm := processedSummShare shared.processedSumm priv.processedSumm volume }
  | .metadata info =>
    { shared with metadataSumm := metadataSummShare shared.metadataSumm priv.metadataSumm info }

theorem shareOrder_nodup : shareOrder.Nodup := by decide

theorem mem_shareOrder (c : Counter) : c ∈ shareOrder := by
  rcases c with volume | info
  · cases volume <;> decide
  · cases info <;> decide

theorem share_counter (shared priv : Summ) (c : Counter) :
    (shared.share priv c).counter c = shared.counter c + priv.counter c := by
  rcases c with volume | info
  · cases volume <;> rfl
  · cases info <;> rfl

theorem metadataSummShare_other (shared priv : MetadataSumm) {c d : LnfInfo} (ne : d ≠ c) :
    (metadataSummShare shared priv c).counter d = shared.counter d := by
  cases c <;> cases d <;> first | rfl | exact absurd rfl ne

theorem share_other (shared priv : Summ) {c d : Counter} (ne : d ≠ c) :
    (shared.share priv c).counter d = shared.counter d := by
  cases c with
  | processed v =>
    cases d with
    | processed w => cases v <;> cases w <;> first | rfl | exact absurd rfl ne
    | metadata info => rfl
  | metadata info =>
    cases d with
    | processed w => rfl
    | metadata other => exact metadataSummShare_other _ _ fun same => ne (by rw [same])

/-! ### Reducing

The structures are reduced as arrays of `STRUCT_PROCESSED_SUMM_ELEMENTS` and
`STRUCT_METADATA_SUMM_ELEMENTS` numbers, in the order of their members. -/

def processedArray (s : ProcessedSumm) : Fin 3 → UInt64
  | 0 => s.flows
  | 1 => s.pkts
  | 2 => s.bytes

def processedOfArray (a : Fin 3 → UInt64) : ProcessedSumm := ⟨a 0, a 1, a 2⟩

def Volume.index : Volume → Fin 3
  | .flows => 0
  | .pkts => 1
  | .bytes => 2

def MetadataSumm.toArray (s : MetadataSumm) : Slave.MetadataSumm
  | 0 => s.flows
  | 1 => s.flowsTcp
  | 2 => s.flowsUdp
  | 3 => s.flowsIcmp
  | 4 => s.flowsOther
  | 5 => s.pkts
  | 6 => s.pktsTcp
  | 7 => s.pktsUdp
  | 8 => s.pktsIcmp
  | 9 => s.pktsOther
  | 10 => s.bytes
  | 11 => s.bytesTcp
  | 12 => s.bytesUdp
  | 13 => s.bytesIcmp
  | 14 => s.bytesOther

def MetadataSumm.ofArray (a : Slave.MetadataSumm) : MetadataSumm :=
  ⟨a 0, a 1, a 2, a 3, a 4, a 5, a 6, a 7, a 8, a 9, a 10, a 11, a 12, a 13, a 14⟩

theorem processedArray_index (s : ProcessedSumm) (v : Volume) :
    processedArray s v.index = processedCounter s v := by
  cases v <;> rfl

theorem processedOfArray_counter (a : Fin 3 → UInt64) (v : Volume) :
    processedCounter (processedOfArray a) v = a v.index := by
  cases v <;> rfl

theorem MetadataSumm.toArray_index (s : MetadataSumm) (info : LnfInfo) :
    s.toArray info.index = s.counter info := by
  cases info <;> rfl

theorem MetadataSumm.ofArray_counter (a : Slave.MetadataSumm) (info : LnfInfo) :
    (MetadataSumm.ofArray a).counter info = a info.index := by
  cases info <;> rfl

theorem metadataSummUpdate_toArray (ms : MetadataSumm) (file : FlowFile R) :
    (metadataSummUpdate ms file).toArray = Slave.metadataSummUpdate ms.toArray file := by
  funext i
  fin_cases i <;> rfl

/-! ### Printing -/

variable (libc : Libc) (params : OutputParams)

def uint64Bytes (n : UInt64) : Bytes := (List.range 8).map fun i => UInt8.ofNat (n.toNat / 256 ^ i)

def volumeText (n : UInt64) : String := volumeToStr libc params (uint64Bytes n)

/-- The group of a unit in the pretty format: the pieces of its six lines. -/
def prettyGroup (name : String) (total tcp udp icmp other : UInt64) : List (List String) :=
  [["\t", name, ":"], ["\t\ttotal: ", volumeText libc params total],
    ["\t\tTCP:   ", volumeText libc params tcp],
    ["\t\tUDP:   ", volumeText libc params udp], ["\t\tICMP:  ", volumeText libc params icmp],
    ["\t\tother: ", volumeText libc params other]]

/-- The row of a unit in the CSV format. -/
def csvGroup (name : String) (total tcp udp icmp other : UInt64) : List String :=
  [name, volumeText libc params total, volumeText libc params tcp, volumeText libc params udp,
    volumeText libc params icmp, volumeText libc params other]

/-- The lines of `print_metadata_summ`: in the pretty format as the pieces of each line, in the CSV
format as the cells between separators. -/
def metadataLines (s : MetadataSumm) : List (List String) :=
  match params.format with
  | .pretty =>
    [["metadata summary:"]] ++
      prettyGroup libc params "flows" s.flows s.flowsTcp s.flowsUdp s.flowsIcmp s.flowsOther ++
      prettyGroup libc params "packets" s.pkts s.pktsTcp s.pktsUdp s.pktsIcmp s.pktsOther ++
      prettyGroup libc params "bytes" s.bytes s.bytesTcp s.bytesUdp s.bytesIcmp s.bytesOther
  | .csv =>
    [["field", "total", "TCP", "UDP", "ICMP", "other"],
      csvGroup libc params "flows" s.flows s.flowsTcp s.flowsUdp s.flowsIcmp s.flowsOther,
      csvGroup libc params "packets" s.pkts s.pktsTcp s.pktsUdp s.pktsIcmp s.pktsOther,
      csvGroup libc params "bytes" s.bytes s.bytesTcp s.bytesUdp s.bytesIcmp s.bytesOther]

/-- The lines of `print_processed_summ`; the duration and the flow rate are given as texts. -/
def processedLines (seconds rate : String) (s : ProcessedSumm) : List (List String) :=
  match params.format with
  | .pretty =>
    [["processed records summary:"],
      ["\t", volumeText libc params s.flows, " flows, ", volumeText libc params s.pkts, " packets, ",
        volumeText libc params s.bytes, " bytes"],
      ["\t", seconds, " seconds, ", rate, " flows/second"]]
  | .csv =>
    [["flows", "packets", "bytes", "seconds", "flows/second"],
      [volumeText libc params s.flows, volumeText libc params s.pkts,
        volumeText libc params s.bytes, seconds, rate]]

/-- Where a counter of a file is printed: five counters for each unit. -/
def LnfInfo.place (format : OutputFormat) (info : LnfInfo) : Nat × Nat :=
  match format with
  | .pretty => (2 + info.index / 5 * 6 + info.index % 5, 1)
  | .csv => (1 + info.index / 5, 1 + info.index % 5)

def Volume.place (format : OutputFormat) (v : Volume) : Nat × Nat :=
  match format with
  | .pretty => (1, 1 + 2 * v.index)
  | .csv => (1, v.index)

def cellAt (lines : List (List String)) (place : Nat × Nat) : Option String :=
  lines[place.1]?.bind fun row => row[place.2]?

theorem metadataLines_cell (s : MetadataSumm) (info : LnfInfo) :
    cellAt (metadataLines libc params s) (info.place params.format) =
      some (volumeText libc params (s.counter info)) := by
  unfold metadataLines
  cases params.format <;> cases info <;> rfl

theorem processedLines_cell (seconds rate : String) (s : ProcessedSumm) (v : Volume) :
    cellAt (processedLines libc params seconds rate s) (v.place params.format) =
      some (volumeText libc params (processedCounter s v)) := by
  unfold processedLines
  cases params.format <;> cases v <;> rfl

end Fdistdump.Summary
