import LogGenerator.Application.Transport
import LogGenerator.Foundation.PartialWrites

/-!
# The TCP and TLS transports on POSIX

Both write a payload in a loop around a call that takes part of it. Resolving, connecting
and the handshake are folded into whether `connect` throws. Of a TLS connection the wire
shows what the peer decrypts.
-/

namespace LogGenerator
namespace Infrastructure

open Domain Application

/-- What a call of the transport reads of its surroundings: the answers to the writing calls for
each payload, with error codes, and what the codes mean. -/
structure StreamIo where
  answer : ℕ → ℕ → WriteAnswer ℕ
  describe : ℕ → Bytes := fun _ => []
  connectError : Option Bytes := none

/-- The bytes that have been taken on each connection, in the order of connecting. -/
structure Connections where
  wires : List Bytes := []

def Connections.add (net : Connections) (socket : ℕ) (written : Bytes) : Connections :=
  { wires := net.wires.modify socket (· ++ written) }

/-- `std::numeric_limits<int>::max()`. -/
def maximumWrite : ℕ := 2147483647

/-- `send` takes nothing when it fails. -/
def socketAnswer (io : StreamIo) (payload call : ℕ) : WriteAnswer Failure :=
  match io.answer payload call with
  | .wrote count => .wrote count
  | .failed _ error =>
    .failed 0 (.exception (bytes "send failed (" ++ decimal error ++ bytes "): " ++ io.describe error))

def sendAll (io : StreamIo) (index : ℕ) (payload : Bytes) : Except Failure Unit × Bytes :=
  writeLoop maximumWrite (.exception (bytes "Remote endpoint closed the connection"))
    (socketAnswer io index) 0 payload

/-- `tls_error`; the code zero means that there is none. -/
def tlsError (io : StreamIo) (action : Bytes) (code : ℕ) : Failure :=
  if code = 0 then .exception (action ++ bytes " failed")
  else .exception (action ++ bytes " failed: " ++ io.describe code)

/-- `SSL_write_ex` may fail with some of its records already sent. -/
def tlsAnswer (io : StreamIo) (payload call : ℕ) : WriteAnswer Failure :=
  match io.answer payload call with
  | .wrote count => .wrote count
  | .failed count code => .failed count (tlsError io (bytes "TLS send") code)

def sendEncrypted (io : StreamIo) (index : ℕ) (payload : Bytes) : Except Failure Unit × Bytes :=
  writeLoop payload.length (.exception (bytes "TLS send made no progress")) (tlsAnswer io index) 0
    payload

/-- `send` of either transport. -/
def sendOver (write : StreamIo → ℕ → Bytes → Except Failure Unit × Bytes) (socket : ℕ)
    (net : Connections) (index : ℕ) (payload : Bytes) (io : StreamIo) :
    Except Failure SendResult × ℕ × Connections :=
  match write io index payload with
  | (.ok (), written) => (.ok .sent, socket, net.add socket written)
  | (.error failure, written) => (.error failure, socket, net.add socket written)

/-- `ILogTransport::send_batch`. -/
def sendEach (write : StreamIo → ℕ → Bytes → Except Failure Unit × Bytes) (socket : ℕ)
    (net : Connections) (io : StreamIo) : ℕ → List Bytes → Except Failure SendResult × ℕ × Connections
  | _, [] => (.ok .sent, socket, net)
  | index, payload :: rest =>
    match sendOver write socket net index payload io with
    | (.ok .sent, socket, net) => sendEach write socket net io (index + 1) rest
    | stopped => stopped

def streamTransport (write : StreamIo → ℕ → Bytes → Except Failure Unit × Bytes) :
    Transport ℕ Connections StreamIo where
  connect _ net io :=
    match io.connectError with
    | some what => (.error (.exception what), net)
    | none => (.ok net.wires.length, { wires := net.wires ++ [[]] })
  send socket net payload io := sendOver write socket net 0 payload io
  sendBatch socket net payloads io := sendEach write socket net io 0 payloads
  isDatagram := false
  preferredBatchSize := 1

def tcpTransport : Transport ℕ Connections StreamIo := streamTransport sendAll

def openSslTransport : Transport ℕ Connections StreamIo := streamTransport sendEncrypted

end Infrastructure
end LogGenerator
