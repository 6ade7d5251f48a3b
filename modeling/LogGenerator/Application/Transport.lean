import LogGenerator.Domain.GeneratorConfig

/-!
# The transport port

What a worker knows of a transport. `World` is what all transport objects share
(a directory, a network) and `Event` is what the environment decides during one
call, so that a model of this structure can behave in any way at all.
-/

namespace LogGenerator
namespace Application

open Domain

inductive SendResult where
  | sent | totalBytesLimitReached | fileCountLimitReached | durationLimitReached
  deriving DecidableEq, Repr

/-- A thrown exception: a `std::exception` with its `what()`, or anything else. -/
inductive Failure where
  | exception (what : Bytes)
  | unknown
  deriving DecidableEq

def Failure.message (f : Failure) (fallback : Bytes) : Bytes :=
  match f with
  | .exception what => what
  | .unknown => fallback

structure Transport (Handle World Event : Type) where
  connect : EndpointConfig → World → Event → Except Failure Handle × World
  send : Handle → World → Bytes → Event → Except Failure SendResult × Handle × World
  sendBatch : Handle → World → List Bytes → Event → Except Failure SendResult × Handle × World
  isDatagram : Bool
  preferredBatchSize : ℕ

def completionMessage : SendResult → Bytes
  | .totalBytesLimitReached => bytes "FILE 총 생성량 제한에 도달하여 자동 중지했습니다."
  | .fileCountLimitReached => bytes "FILE 생성 파일 개수 제한에 도달하여 자동 중지했습니다."
  | .durationLimitReached => bytes "FILE 실행 시간 제한에 도달하여 자동 중지했습니다."
  | .sent => []

end Application
end LogGenerator
