import MethodHistory.Change.Draft
import MethodHistory.Limit

/-!
This module contains the sinks of records: one that keeps them in a buffer and one that writes them
as lines of a file. A sink ignores a record with the identity of one that it holds.
-/

namespace MethodHistory

structure BufferSink where
  records : List Record

namespace BufferSink

def empty : BufferSink :=
  ⟨[]⟩

def insert (sink : BufferSink) (record : Record) : Bool × BufferSink :=
  if sink.records.any (·.identity = record.identity) then (false, sink)
  else (true, ⟨sink.records ++ [record]⟩)

end BufferSink

/--
Lines at the end of a file, at most as many as the limit. A sink knows the records that it has
written, not those that the file held before.
-/
structure LineSink where
  limit : Option Limit
  content : String
  written : Nat
  seen : List Identity
  limitReported : Bool
  warnings : List String

namespace LineSink

def «open» (limit : Option Limit) (content : String) : LineSink :=
  ⟨limit, content, 0, [], false, []⟩

def line (record : Record) : String :=
  .ofList ((Json.ofFields record.fields).write ++ ['\n'])

def reached? (sink : LineSink) : Option Limit :=
  sink.limit.filter (·.isReached sink.written)

def refuse (sink : LineSink) (limit : Limit) : LineSink :=
  if !sink.limitReported then
    { sink with
      limitReported := true
      warnings := sink.warnings ++ [limit.warning] }
  else
    sink

def write (sink : LineSink) (record : Record) : LineSink :=
  { sink with
    content := sink.content ++ line record
    written := sink.written + 1
    seen := sink.seen ++ [record.identity] }

def insert (sink : LineSink) (record : Record) : Bool × LineSink :=
  if sink.seen.contains record.identity then
    (false, sink)
  else
    match sink.reached? with
    | some limit => (false, sink.refuse limit)
    | none => (true, sink.write record)

end LineSink

inductive SinkFault where
  | misuse (fault : Misuse)
  | closed
  deriving DecidableEq

def SinkFault.message : SinkFault → String
  | misuse fault => fault.message
  | closed => "I/O operation on closed file."

inductive Sink where
  | buffer (sink : BufferSink)
  | lines (sink : LineSink)

namespace Sink

def insert (sink : Sink) (record : Record) : Bool × Sink :=
  match sink with
  | buffer sink =>
    let (added, sink) := sink.insert record
    (added, buffer sink)
  | lines sink =>
    let (added, sink) := sink.insert record
    (added, lines sink)

/--
Whether what is offered was new, and the sink with it. A record can be ignored whatever it lacks and
also when the file is closed, but then it cannot be written.
-/
def offer (sink : Sink) (isOpen : Bool) (draft : Draft) : Except SinkFault (Bool × Sink) :=
  match draft.record.project.misuse?, sink.insert draft.record with
  | some misuse, _ => .error (.misuse misuse)
  | none, (true, lines sink) =>
    match draft.finished with
    | .error misuse => .error (.misuse misuse)
    | .ok _ => if isOpen then .ok (true, lines sink) else .error .closed
  | none, result => .ok result

def size : Sink → Nat
  | buffer sink => sink.records.length
  | lines sink => sink.written

def content : Sink → String
  | buffer _ => ""
  | lines sink => sink.content

def warnings : Sink → List String
  | buffer _ => []
  | lines sink => sink.warnings

end Sink
end MethodHistory
