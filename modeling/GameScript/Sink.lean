import GameScript.Printer.Output

/-! Delivery of printed text to a sink that holds a limited number of bytes. -/

namespace GameScript

namespace Sink

inductive Failure where
  | full
  | incomplete
deriving DecidableEq, Repr

structure Delivery where
  written : List UInt8
  failure : Option Failure
deriving DecidableEq, Repr

def bytesOf (text : String) : List UInt8 := text.toUTF8.toList

def straight (limit : Nat) (output : Output) : Delivery :=
  let bytes := bytesOf output.text
  if limit < bytes.length then ⟨bytes.take limit, some .full⟩
  else ⟨bytes, if output.stopped then some .incomplete else none⟩

def bufferSize : Nat := 4096

/-- How many of a number of bytes have left the buffer: it is emptied when it is full and more
follows. -/
def flushed (count : Nat) : Nat := (count - 1) / bufferSize * bufferSize

/-- Text goes through a buffer, whose content is lost on a stop. -/
def buffered (limit : Nat) (output : Output) : Delivery :=
  let bytes := bytesOf output.text
  let sent := if output.stopped then bytes.take (flushed bytes.length) else bytes
  if limit < sent.length then ⟨sent.take limit, some .full⟩
  else ⟨sent, if output.stopped then some .incomplete else none⟩

end Sink

end GameScript
