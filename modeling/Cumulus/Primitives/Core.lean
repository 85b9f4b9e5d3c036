import Mathlib.Data.BitVec

/-!
# Shared primitives: para ids, message formats, channel statuses, the message queue chain

The types here are shared by parachain-system, xcmp-queue and dmp-queue. Most of them are
defined in `cumulus-primitives-core` and `cumulus-primitives-parachain-inherent` (under `src/`);
`XcmpMessageFormat`, `AbridgedHrmpChannel` and the inbound message records are re-exported there
from the relay-chain primitives and are modelled with exactly the fields the modelled code reads.

* `XcmpMessageFormat`, `ChannelSignal` — the one-byte SCALE encodings the queue writes and reads
  at the start of a page (`encode`, `decode`, `decode_encode`).
* `ChannelStatus`, `MessageSendError` — the answers of `GetChannelInfo` and of a send.
* `HashScheme`, `MessageQueueChain.extendHrmp` / `extendDownward` — the message queue chain (MQC)
  of `primitives/parachain-inherent`, over an abstract hash (`BlakeTwo256` lives outside `src/`).
* `InvalidTransaction` — the answers of the bridge pallets' checks before a transaction is
  included.
-/

namespace Cumulus.Primitives

/-- A para id (`ParaId`, a `u32` newtype). The model only compares para ids, so it keeps them
as natural numbers. -/
abbrev ParaId := Nat

/-- A relay-chain block number (`relay_chain::BlockNumber`, a `u32`). -/
abbrev RelayBlockNumber := BitVec 32

/-! ## Message formats and signals -/

/-- The format byte at the start of an XCMP page.
Source: `polkadot_parachain::primitives::XcmpMessageFormat` -/
inductive XcmpMessageFormat where
  /-- Encoded `VersionedXcm` messages, all concatenated. -/
  | concatenatedVersionedXcm
  /-- Encoded `Vec<u8>` messages, all concatenated. -/
  | concatenatedEncodedBlob
  /-- One or more channel control signals. -/
  | signals
  deriving DecidableEq, Repr

namespace XcmpMessageFormat

/-- SCALE encoding of the format: the variant index as one byte. -/
def encode : XcmpMessageFormat → List UInt8
  | concatenatedVersionedXcm => [0]
  | concatenatedEncodedBlob => [1]
  | signals => [2]

/-- SCALE decoding of a format from the front of a byte string, returning the rest. -/
def decode : List UInt8 → Option (XcmpMessageFormat × List UInt8)
  | 0 :: rest => some (concatenatedVersionedXcm, rest)
  | 1 :: rest => some (concatenatedEncodedBlob, rest)
  | 2 :: rest => some (signals, rest)
  | _ => none

/-- The variant index of a format: its encoding, and the key of its derived `Ord`. -/
def index : XcmpMessageFormat → Nat
  | concatenatedVersionedXcm => 0
  | concatenatedEncodedBlob => 1
  | signals => 2

end XcmpMessageFormat

/-- A channel control signal.
Source: `pallets/xcmp-queue/src/lib.rs` `ChannelSignal` -/
inductive ChannelSignal where
  | suspend
  | resume
  deriving DecidableEq, Repr

namespace ChannelSignal

/-- SCALE encoding of a signal: the variant index as one byte. -/
def encode : ChannelSignal → List UInt8
  | suspend => [0]
  | resume => [1]

/-- SCALE decoding of a signal from the front of a byte string. -/
def decode : List UInt8 → Option (ChannelSignal × List UInt8)
  | 0 :: rest => some (suspend, rest)
  | 1 :: rest => some (resume, rest)
  | _ => none

end ChannelSignal

/-! ## Channel information -/

/-- The status of an outbound channel.
Source: `primitives/core/src/lib.rs` `ChannelStatus` -/
inductive ChannelStatus where
  /-- Channel doesn't exist/has been closed. -/
  | closed
  /-- Channel is completely full right now. -/
  | full
  /-- Ready for sending: the maximum size a valid message may have right now, and the maximum
  size a message may ever have. -/
  | ready (maxSizeNow maxSizeEver : Nat)
  deriving DecidableEq, Repr

/-- Errors of sending a message.
Source: `primitives/core/src/lib.rs` `MessageSendError` -/
inductive MessageSendError where
  /-- The dispatch queue is full. -/
  | queueFull
  /-- There does not exist a channel for sending the message. -/
  | noChannel
  /-- The message is too big to ever fit in a channel. -/
  | tooBig
  /-- Some other error. -/
  | other
  deriving DecidableEq, Repr

/-- The relay-chain record of an HRMP channel (`AbridgedHrmpChannel`), over a hash type `H`.
Source: `polkadot_primitives::AbridgedHrmpChannel` -/
structure AbridgedHrmpChannel (H : Type) where
  /-- The maximum number of messages that can be pending in the channel at once. -/
  maxCapacity : BitVec 32
  /-- The maximum total size of the messages that can be pending in the channel at once. -/
  maxTotalSize : BitVec 32
  /-- The maximum message size that could be put into the channel. -/
  maxMessageSize : BitVec 32
  /-- The current number of messages pending in the channel. -/
  msgCount : BitVec 32
  /-- The total size in bytes of all message payloads in the channel. -/
  totalSize : BitVec 32
  /-- The head of the message queue chain of the channel, if any. -/
  mqcHead : Option H
  deriving DecidableEq, Repr

/-! ## Inbound messages and the message queue chain -/

/-- A downward message as relayed to the parachain (`InboundDownwardMessage`). -/
structure InboundDownwardMessage where
  /-- The relay-chain block number at which the message was put into the queue. -/
  sentAt : RelayBlockNumber
  /-- The message payload. -/
  msg : List UInt8
  deriving DecidableEq, Repr

/-- An HRMP message as relayed to the parachain (`InboundHrmpMessage`). -/
structure InboundHrmpMessage where
  /-- The relay-chain block number at which the message was put into the channel. -/
  sentAt : RelayBlockNumber
  /-- The message payload. -/
  data : List UInt8
  deriving DecidableEq, Repr

/-- The hash function of the message queue chain: `BlakeTwo256::hash_of` applied to the tuple
`(prev_head, sent_at, hash(data))` and to a payload, and the zero hash that heads the empty
chain. `BlakeTwo256` is a dependency outside `src/`, so it is a parameter here. -/
structure HashScheme (H : Type) where
  /-- `H256::default()`, the head of an empty chain. -/
  zero : H
  /-- `BlakeTwo256::hash_of(&(prev_head, sent_at, data_hash))`. -/
  hashOf : H → RelayBlockNumber → H → H
  /-- `BlakeTwo256::hash_of(&data)`. -/
  hashData : List UInt8 → H

/-- A message queue chain: the head hash of a hash chain over a message queue.
Source: `primitives/parachain-inherent/src/lib.rs` `MessageQueueChain` -/
structure MessageQueueChain (H : Type) where
  /-- The current head. -/
  head : H
  deriving DecidableEq, Repr

namespace MessageQueueChain

variable {H : Type} (hs : HashScheme H)

/-- `MessageQueueChain::default()`: the chain with the zero head. -/
def empty : MessageQueueChain H := ⟨hs.zero⟩

/-- Extend the chain with an HRMP message.
Source: `primitives/parachain-inherent/src/lib.rs` `MessageQueueChain::extend_hrmp` -/
def extendHrmp (c : MessageQueueChain H) (m : InboundHrmpMessage) : MessageQueueChain H :=
  ⟨hs.hashOf c.head m.sentAt (hs.hashData m.data)⟩

/-- Extend the chain with a downward message.
Source: `primitives/parachain-inherent/src/lib.rs` `MessageQueueChain::extend_downward` -/
def extendDownward (c : MessageQueueChain H) (m : InboundDownwardMessage) :
    MessageQueueChain H :=
  ⟨hs.hashOf c.head m.sentAt (hs.hashData m.msg)⟩

end MessageQueueChain

/-! ## Transaction validity -/

/-- The answers of a check before inclusion that make a transaction invalid.
Source: `sp_runtime::transaction_validity::InvalidTransaction`, the variants the bridge pallets'
checks use -/
inductive InvalidTransaction where
  /-- The transaction is outdated. -/
  | stale
  /-- The call of the transaction is not expected. -/
  | call
  deriving DecidableEq, Repr

end Cumulus.Primitives
