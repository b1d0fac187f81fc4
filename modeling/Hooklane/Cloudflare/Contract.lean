import Hooklane.Domain.Events

/-!
# Canonicalization shared by the Cloudflare backend

The parts of `contract.py` that the D1 store uses.  A payload is cut on the
bytes of its UTF-8 encoding, and every piece is decoded on its own, so the
model works on bytes as well.
-/

namespace Hooklane.Cloudflare

/-- `PAYLOAD_CHUNK_LIMIT_BYTES`. -/
def payloadChunkLimitBytes : ℕ := 1500000

/-- `byte & 0b1100_0000 == 0b1000_0000`. -/
def isContinuation (byte : UInt8) : Bool :=
  byte &&& 0b11000000 == 0b10000000

/-- The inner loop of `payload_json_chunks`: step back from `stop` while the
byte there continues a character. -/
def backUp (encoded : ByteArray) (start : ℕ) : ℕ → ℕ
  | 0 => 0
  | stop + 1 =>
      if start < stop + 1 ∧ isContinuation encoded[stop + 1]! then
        backUp encoded start stop
      else stop + 1

/-- Where the piece that begins at `start` ends. -/
def chunkEnd (limit : ℕ) (encoded : ByteArray) (start : ℕ) : ℕ :=
  let stop := min (start + limit) encoded.size
  if stop < encoded.size then backUp encoded start stop else stop

/-- The outer loop from `start`, with at most one round for each byte; `none`
where it raises `ValueError`. -/
def chunksFrom (limit : ℕ) (encoded : ByteArray) :
    ℕ → ℕ → Option (List String)
  | 0, start => if start < encoded.size then none else some []
  | rounds + 1, start =>
      if start < encoded.size then
        let stop := chunkEnd limit encoded start
        if stop = start then none
        else do
          let chunk ← String.fromUTF8? (encoded.extract start stop)
          let rest ← chunksFrom limit encoded rounds stop
          return chunk :: rest
      else some []

/-- `payload_json_chunks`. -/
def payloadJsonChunks (limit : ℕ) (event : EventRequest) :
    Option (List String) :=
  let encoded := event.payloadJson.toUTF8
  chunksFrom limit encoded encoded.size 0

/-- `idempotency_key_hash`. -/
def idempotencyKeyHash (lib : Stdlib) (idempotencyKey : Option String) :
    Option String :=
  idempotencyKey.map lib.sha256

end Hooklane.Cloudflare
