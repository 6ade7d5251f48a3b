import LogGenerator.Foundation.Bytes

/-!
# Domain records

The fields that some modelled function reads. A `std::map` is its list of
entries in key order, with the order as a field.
-/

namespace LogGenerator
namespace Domain

inductive TransportProtocol where
  | udp | tcp | tls | file
  deriving DecidableEq, Repr

inductive StreamFraming where
  | newline | octetCounting
  deriving DecidableEq, Repr

inductive TransmissionMode where
  | sequential | parallel
  deriving DecidableEq, Repr

inductive UdpPacketization where
  | oneEventPerDatagram | newlinePacked
  deriving DecidableEq, Repr

inductive GeneratorState where
  | stopped | connecting | running | stopping | failed
  deriving DecidableEq, Repr

/-- Zero means no limit in the three `file_max` fields; the duration is in milliseconds. -/
structure EndpointConfig where
  protocol : TransportProtocol := .udp
  host : Bytes := bytes "127.0.0.1"
  port : ℕ := 514
  framing : StreamFraming := .newline
  udpPacketization : UdpPacketization := .oneEventPerDatagram
  fileMaxTotalBytes : ℕ := 0
  fileMaxCount : ℕ := 0
  fileMaxDuration : ℤ := 0
  deriving DecidableEq

theorem sorted_nil : ([] : List (Bytes × List Bytes)).Pairwise fun a b => a.1 < b.1 := .nil

/-- The values of each token, tokens in increasing order. -/
structure LogTestCase where
  values : List (Bytes × List Bytes) := []
  sorted : values.Pairwise fun a b => a.1 < b.1 := by
    exact LogGenerator.Domain.sorted_nil
  deriving DecidableEq

structure LogTemplate where
  id : Bytes := []
  name : Bytes := []
  sample : Bytes
  source : Bytes := []
  testCase : LogTestCase := {}
  deriving DecidableEq

structure TimeOffset where
  negative : Bool := false
  days : ℤ := 0
  hours : ℤ := 0
  minutes : ℤ := 0
  deriving DecidableEq

/-- In seconds. -/
def TimeOffset.value (o : TimeOffset) : ℤ :=
  let seconds := 86400 * o.days + 3600 * o.hours + 60 * o.minutes
  if o.negative then -seconds else seconds

inductive TimestampGenerationMode where
  | offset | range
  deriving DecidableEq, Repr

/-- Both ends in seconds since the epoch. -/
structure TimeRange where
  start : ℤ := 0
  stop : ℤ := 0
  deriving DecidableEq

def TimeRange.valid (r : TimeRange) : Bool := r.start ≤ r.stop

def TimeRange.inclusiveSeconds (r : TimeRange) : ℕ :=
  if r.valid then (r.stop - r.start).toNat + 1 else 0

structure TimestampGeneration where
  mode : TimestampGenerationMode := .offset
  offset : TimeOffset := {}
  range : TimeRange := {}
  deriving DecidableEq

structure GeneratorConfig where
  endpoint : EndpointConfig := {}
  templates : List LogTemplate := []
  sourceIp : Bytes := bytes "10.0.0.10"
  destinationIp : Bytes := bytes "10.0.0.20"
  timestampGeneration : TimestampGeneration := {}
  transmissionMode : TransmissionMode := .parallel
  targetEps : ℕ := 0
  deriving DecidableEq

end Domain
end LogGenerator
