import CiPipeline.Text.Utf8

/-!
# Sinks

A sink takes bytes until it is full, and may fail when it is flushed. An output is written to it
part by part and stops at the first failure; what was taken before stays in the sink.
-/

namespace CiPipeline

/-- What goes wrong with the place to which a text is written. -/
inductive SinkFailure where
  | full
  /-- What it took cannot be brought to its end. -/
  | flush
deriving DecidableEq

def SinkFailure.message : SinkFailure → String
  | .full => "sink full"
  | .flush => "flush failed"

structure Sink where
  /-- The number of bytes that it still takes, if there is a limit. -/
  room : Option Nat
  flushFails : Bool
  held : List UInt8
  /-- How many of the held bytes have been brought to their end. -/
  flushed : Nat
deriving DecidableEq

namespace Sink

def new (room : Option Nat) (flushFails : Bool) : Sink := ⟨room, flushFails, [], 0⟩

/-- The bytes for which there is room, from the first one on. -/
def fitting (sink : Sink) (bytes : List UInt8) : List UInt8 :=
  match sink.room with
  | none => bytes
  | some room => bytes.take room

def after (sink : Sink) (bytes : List UInt8) : Sink :=
  { sink with
    room := sink.room.map (· - bytes.length)
    held := sink.held ++ sink.fitting bytes }

/-- Writes bytes as far as there is room for them. -/
def write (sink : Sink) (bytes : List UInt8) : Except SinkFailure Unit × Sink :=
  (if (sink.fitting bytes).length = bytes.length then .ok () else .error .full, sink.after bytes)

def settled (sink : Sink) : Sink := { sink with flushed := sink.held.length }

def flush (sink : Sink) : Except SinkFailure Unit × Sink :=
  if sink.flushFails then (.error .flush, sink) else (.ok (), sink.settled)

end Sink

/-- Something that is written to a sink. -/
abbrev Output := ExceptT SinkFailure (StateM Sink)

namespace Output

/-- The outcome of an output on a sink, and the sink afterwards. -/
def into (output : Output α) (sink : Sink) : Except SinkFailure α × Sink :=
  ExceptT.run output sink

def put (text : List Char) : Output Unit :=
  ExceptT.mk fun sink => sink.write (Text.utf8 text)

end Output

end CiPipeline
