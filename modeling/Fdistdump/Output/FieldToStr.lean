import Fdistdump.Common
import Mathlib.Data.String.Basic

/-!
# Field values as text

The `to_str` functions of `output.c`. What they take from the C library and from the processor is
collected in `Libc`; a value is the list of its bytes.
-/

namespace Fdistdump.Output

/-! ### Output parameters -/

inductive OutputFormat
  | pretty
  | csv
deriving DecidableEq, Repr

inductive OutputTsConv
  | none
  | pretty
deriving DecidableEq, Repr

inductive OutputVolumeConv
  | none
  | metricPrefix
  | binaryPrefix
deriving DecidableEq, Repr

/-- The choice between a number and a textual form, for TCP flags, IP addresses, IP protocols and
durations. -/
inductive OutputStrConv
  | none
  | str
deriving DecidableEq, Repr

/-- The conversions of `struct output_params`, as `arg_parse` sets them. -/
structure OutputParams where
  format : OutputFormat
  tsConv : OutputTsConv
  volumeConv : OutputVolumeConv
  tcpFlagsConv : OutputStrConv
  ipAddrConv : OutputStrConv
  ipProtoConv : OutputStrConv
  durationConv : OutputStrConv
deriving DecidableEq, Repr

/-- `lnf_brec1_t`, each member as its bytes. -/
structure LnfBrec1 where
  first : Bytes
  last : Bytes
  prot : Bytes
  srcaddr : Bytes
  srcport : Bytes
  dstaddr : Bytes
  dstport : Bytes
  bytes : Bytes
  pkts : Bytes
  flows : Bytes

/-- Floating-point numbers, `printf` of them with `"%.1f"`, `localtime_r` with `strftime` of `"%F %T"`,
`inet_ntop` and the layout of `lnf_brec1_t`. -/
structure Libc where
  Double : Type
  ofUInt64 : Nat → Double
  ofBits : Nat → Double
  exceeds : Nat → Double → Bool
  divide : Nat → Double → Double
  fixed1 : Double → String
  dateTime : Nat → String
  inetNtop4 : Bytes → String
  inetNtop6 : Bytes → String
  brec1Size : Nat
  brec1 : Bytes → LnfBrec1
  fixed1_zero : fixed1 (ofBits 0) = "0.0"
  inetNtop6_zero : ∀ data, (∀ byte ∈ data, byte = 0) → inetNtop6 data = "::"

/-! ### Numbers -/

/-- The little-endian number in the first `width` bytes. -/
def uintLe (width : Nat) (data : Bytes) : Nat :=
  (data.take width).foldr (fun byte acc => byte.toNat + 256 * acc) 0

/-- The number in the first `width` bytes, in network order. -/
def uintBe (width : Nat) (data : Bytes) : Nat :=
  (data.take width).foldl (fun acc byte => 256 * acc + byte.toNat) 0

/-- `"%.<width>u"`. -/
def zeroPadded (width n : Nat) : String :=
  String.ofList (List.replicate (width - (toString n).length) '0') ++ toString n

/-- `"%02x"`. -/
def hexByte (byte : UInt8) : String :=
  String.ofList [Nat.digitChar (byte.toNat / 16), Nat.digitChar (byte.toNat % 16)]

variable (libc : Libc) (params : OutputParams)

def uintToStr (width : Nat) (data : Bytes) : String := toString (uintLe width data)

def doubleToStr (data : Bytes) : String := libc.fixed1 (libc.ofBits (uintLe 8 data))

/-! ### Timestamps and durations -/

def timestampToStr (data : Bytes) : String :=
  let ts := uintLe 8 data
  match params.tsConv with
  | .none => toString ts
  | .pretty => libc.dateTime (ts / 1000) ++ "." ++ zeroPadded 3 (ts % 1000)

def durationToStr (data : Bytes) : String :=
  let duration := uintLe 8 data
  match params.durationConv with
  | .none => toString duration
  | .str =>
    let msec := duration % 1000
    let sec := duration / 1000 % 60
    let min := duration / 1000 / 60 % 60
    let hours := duration / 1000 / 60 / 60
    zeroPadded 2 hours ++ ":" ++ zeroPadded 2 min ++ ":" ++ zeroPadded 2 sec ++ "." ++ zeroPadded 3 msec

/-! ### Volumes -/

def metricPrefixThreshold : Nat := 1000
def binaryPrefixThreshold : Nat := 1024

def decimalUnitTable : List String := [" ", "k", "M", "G", "T", "P", "E", "Z", "Y"]
def binaryUnitTable : List String := ["  ", "Ki", "Mi", "Gi", "Ti", "Pi", "Ei", "Zi", "Yi"]

/-- The loop over the units: divide while the volume exceeds the threshold and a unit is left. -/
def scaleVolume (threshold : Nat) : libc.Double → List String → libc.Double × String
  | volume, [] => (volume, "")
  | volume, [unit] => (volume, unit)
  | volume, unit :: next :: rest =>
    if libc.exceeds threshold volume then
      scaleVolume threshold (libc.divide threshold volume) (next :: rest)
    else (volume, unit)

def scaledToStr (threshold : Nat) (units : List String) (volume : libc.Double) : String :=
  let (volume, unit) := scaleVolume libc threshold volume units
  libc.fixed1 volume ++ " " ++ unit

def doubleVolumeToStr (data : Bytes) : String :=
  let volume := libc.ofBits (uintLe 8 data)
  match params.volumeConv with
  | .none => libc.fixed1 volume
  | .metricPrefix => scaledToStr libc metricPrefixThreshold decimalUnitTable volume
  | .binaryPrefix => scaledToStr libc binaryPrefixThreshold binaryUnitTable volume

def volumeToStr (data : Bytes) : String :=
  let volume := libc.ofUInt64 (uintLe 8 data)
  match params.volumeConv with
  | .none => toString (uintLe 8 data)
  | .metricPrefix => scaledToStr libc metricPrefixThreshold decimalUnitTable volume
  | .binaryPrefix => scaledToStr libc binaryPrefixThreshold binaryUnitTable volume

/-! ### TCP flags and IP protocols -/

def tcpFlagsTable : List Char := ['C', 'E', 'U', 'A', 'P', 'R', 'S', 'F']

def tcpFlagUnsetChar : Char := '.'

def tcpFlagsToStr (data : Bytes) : String :=
  match params.tcpFlagsConv with
  | .none => uintToStr 1 data
  | .str =>
    String.ofList <| (List.range 8).map fun idx =>
      if (uintLe 1 data).testBit (7 - idx) then tcpFlagsTable.getD idx tcpFlagUnsetChar
      else tcpFlagUnsetChar

/-- `ip_proto_str_table` up to 142; 143 to 252 are unassigned. -/
def ipProtoStrTable : List String := [
  "HOPOPT", "ICMP", "IGMP", "GGP", "IPv4", "ST", "TCP", "CBT", "EGP", "IGP", "BBN-RCC-MON",
    "NVP-II", "PUP",
  "ARGUS", "EMCON", "XNET", "CHAOS", "UDP", "MUX", "DCN-MEAS", "HMP", "PRM", "XNS-IDP", "TRUNK-1",
  "TRUNK-2",
  "LEAF-1", "LEAF-2", "RDP", "IRTP", "ISO-TP4", "NETBLT", "MFE-NSP", "MERIT-INP", "DCCP", "3PC",
  "IDPR", "XTP",
  "DDP", "IDPR-CMTP", "TP++", "IL", "IPv6", "SDRP", "IPv6-Route", "IPv6-Frag", "IDRP", "RSVP",
  "GRE", "DSR",
  "BNA", "ESP", "AH", "I-NLSP", "SWIPE", "NARP", "MOBILE", "TLSP", "SKIP", "IPv6-ICMP", "IPv6-NoNxt",
  "IPv6-Opts", "any host internal protocol", "CFTP", "any local network", "SAT-EXPAK",
  "KRYPTOLAN", "RVD",
  "IPPC", "any distributed file system", "SAT-MON", "VISA", "IPCV", "CPNX", "CPHB", "WSN", "PVP",
  "BR-SAT-MON",
  "SUN-ND", "WB-MON", "WB-EXPAK", "ISO-IP", "VMTP", "SECURE-VMTP", "VINES", "TTP/IPTM",
  "NSFNET-IGP", "DGP",
  "TCF", "EIGRP", "OSPFIGP", "Sprite-RPC", "LARP", "MTP", "AX.25", "IPIP", "MICP", "SCC-SP",
  "ETHERIP", "ENCAP",
  "any private encryption", "GMTP", "IFMP", "PNNI", "PIM", "ARIS", "SCPS", "QNX", "A/N", "IPComp", "SNP",
  "Compaq-Peer", "IPX-in-IP", "VRRP", "PGM", "any 0-hop protocol", "L2TP", "DDX", "IATP", "STP",
  "SRP", "UTI",
  "SMP", "SM", "PTP", "ISIS over IPv4", "FIRE", "CRTP", "CRUDP", "SSCOPMCE", "IPLT", "SPS",
  "PIPE", "SCTP",
  "FC", "RSVP-E2E-IGNORE", "Mobility Header", "UDPLite", "MPLS-in-IP", "manet", "HIP", "Shim6",
  "WESP", "ROHC"]

def ipProtoStr (proto : Nat) : String :=
  if proto = 253 ∨ proto = 254 then "experimentation and testing"
  else if proto = 255 then "Reserved"
  else ipProtoStrTable.getD proto "Unassigned"

def ipProtoToStr (data : Bytes) : String :=
  match params.ipProtoConv with
  | .none => uintToStr 1 data
  | .str => ipProtoStr (uintLe 1 data)

/-! ### Addresses and strings -/

def in6IsAddrV4Compat (data : Bytes) : Bool :=
  uintBe 12 data == 0 && decide (1 < uintBe 4 (data.drop 12))

def libnfAddrToStr (data : Bytes) : String :=
  match params.ipAddrConv with
  | .none =>
    toString (uintBe 4 data) ++ ":" ++ toString (uintBe 4 (data.drop 4)) ++ ":" ++
      toString (uintBe 4 (data.drop 8)) ++ ":" ++ toString (uintBe 4 (data.drop 12))
  | .str =>
    if in6IsAddrV4Compat data then libc.inetNtop4 ((data.drop 12).take 4)
    else libc.inetNtop6 (data.take 16)

def libnfMacToStr (data : Bytes) : String :=
  ":".intercalate ((List.range 6).map fun i => hexByte (data.getD i 0))

def maxStrLen : Nat := 1024

def stringToStr (data : Bytes) : String :=
  String.ofList (((data.takeWhile (· ≠ 0)).take (maxStrLen - 1)).map fun byte => Char.ofNat byte.toNat)

/-! ### Basic records -/

/-- The text before the terminator and `remaining_size`. -/
structure Appended where
  text : String := ""
  remaining : Nat := maxStrLen

/-- `SNPRINTF_APPEND` of an already formatted string. -/
def snprintfAppend (s : Appended) (str : String) : Appended :=
  if s.remaining ≤ str.length then
    { text := s.text ++ String.ofList (str.toList.take (s.remaining - 1)), remaining := 0 }
  else { text := s.text ++ str, remaining := s.remaining - str.length }

/-- `"%-<width>s"`. -/
def leftAligned (width : Nat) (str : String) : String :=
  str ++ String.ofList (List.replicate (width - str.length) ' ')

/-- `"%<width>s"`. -/
def rightAligned (width : Nat) (str : String) : String :=
  String.ofList (List.replicate (width - str.length) ' ') ++ str

def csvSep : String := ","

def libnfBrecParts (brec : LnfBrec1) : List String :=
  match params.format with
  | .pretty => [
      leftAligned 27 (timestampToStr libc params brec.first),
        leftAligned 27 (timestampToStr libc params brec.last),
      leftAligned 6 (ipProtoToStr params brec.prot),
      rightAligned 17 (libnfAddrToStr libc params brec.srcaddr) ++ ":",
      leftAligned 7 (uintToStr 2 brec.srcport),
      rightAligned 17 (libnfAddrToStr libc params brec.dstaddr) ++ ":",
      leftAligned 7 (uintToStr 2 brec.dstport),
      rightAligned 13 (volumeToStr libc params brec.bytes),
      rightAligned 13 (volumeToStr libc params brec.pkts),
      rightAligned 13 (volumeToStr libc params brec.flows)]
  | .csv => [
      timestampToStr libc params brec.first ++ csvSep, timestampToStr libc params brec.last ++ csvSep,
      ipProtoToStr params brec.prot ++ csvSep,
      libnfAddrToStr libc params brec.srcaddr ++ csvSep, uintToStr 2 brec.srcport ++ csvSep,
      libnfAddrToStr libc params brec.dstaddr ++ csvSep, uintToStr 2 brec.dstport ++ csvSep,
      volumeToStr libc params brec.bytes ++ csvSep, volumeToStr libc params brec.pkts ++ csvSep,
      volumeToStr libc params brec.flows]

def libnfBrecToStr (data : Bytes) : String :=
  ((libnfBrecParts libc params (libc.brec1 (data.take libc.brec1Size))).foldl snprintfAppend {}).text

/-! ### The callback of a field -/

/-- The `to_str` functions. -/
inductive FieldToStr
  | timestamp
  | volume
  | tcpFlags
  | ipProto
  | duration
  | doubleVolume
  | uint8
  | uint16
  | uint32
  | uint64
  | double
  | libnfAddr
  | libnfMac
  | libnfBrec
  | string
deriving DecidableEq, Repr

def FieldToStr.apply : FieldToStr → Bytes → String
  | .timestamp => timestampToStr libc params
  | .volume => volumeToStr libc params
  | .tcpFlags => tcpFlagsToStr params
  | .ipProto => ipProtoToStr params
  | .duration => durationToStr params
  | .doubleVolume => doubleVolumeToStr libc params
  | .uint8 => uintToStr 1
  | .uint16 => uintToStr 2
  | .uint32 => uintToStr 4
  | .uint64 => uintToStr 8
  | .double => doubleToStr libc
  | .libnfAddr => libnfAddrToStr libc params
  | .libnfMac => libnfMacToStr
  | .libnfBrec => libnfBrecToStr libc params
  | .string => stringToStr

def nanStr : String := "NaN"

def absentStr : String := "absent"

/-! ### What a callback reads -/

/-- The size of the type a callback's argument points to; a string has at least its terminator. -/
def FieldToStr.width : FieldToStr → Nat
  | .timestamp | .volume | .duration | .doubleVolume | .uint64 | .double => 8
  | .tcpFlags | .ipProto | .uint8 | .string => 1
  | .uint16 => 2
  | .uint32 => 4
  | .libnfAddr => 16
  | .libnfMac => 6
  | .libnfBrec => libc.brec1Size

/-- The value holds all that the callback reads. -/
def FieldToStr.Fits (cb : FieldToStr) (value : Bytes) : Prop :=
  cb.width libc ≤ value.length ∧ (cb = .string → 0 ∈ value)

end Fdistdump.Output
