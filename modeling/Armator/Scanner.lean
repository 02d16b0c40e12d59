import Armator.GdbProtocol
import Armator.Lib.Lexer
import Armator.Lib.Packet

/-!
# `scanner.l`

The lexical rules of the input from gdb with their actions. A token of the scanner is in a buffer
of its own, and the scanner puts a terminator behind it. Characters that belong to no token are
collected in `buffer` and answered by one request for retransmission; a newline matches no rule and
is copied to the output by the default rule of the scanner generator.
-/

namespace Armator

open CString

/-! ## The rules -/

inductive ScannerRule where
  | ack
  | retransmission
  | packet
  | character
  | default
  deriving DecidableEq

def ScannerRule.accepts : ScannerRule → Chars → Bool
  | ack, t => t = ofString "+"
  | retransmission, t => t = ofString "-"
  | packet, t => Packet.isPacket t
  | character, t =>
    match t with
    | [c] => c ≠ ascii '\n'
    | _ => false
  | default, t => t.length = 1

/-- The rules in the order of the source. -/
def scannerRules : List ScannerRule := [.ack, .retransmission, .packet, .character, .default]

/-- `yytext`: a token with its terminator, in front of what the buffer of the scanner holds. -/
def yytext (token : Chars) (beyond : Nat → Byte) : Text := ⟨token ++ [0], beyond⟩

/-! ## The actions -/

def maxErrorSize : Nat := 1024

structure ParserData where
  gdb : GdbProtocolData
  buffer : Nat → Byte
  len : Nat

def handleError (data : ParserData) : Except Fault ParserData :=
  if data.len ≠ 0 then do
    let gdb ← gdbRequireRetransmission data.gdb
    .ok { data with gdb := gdb, buffer := Function.update data.buffer data.len 0, len := 0 }
  else .ok data

def addCharacterToError (data : ParserData) (c : Byte) : Except Fault ParserData := do
  let data ← if data.len > maxErrorSize - 2 then handleError data else .ok data
  .ok { data with buffer := Function.update data.buffer data.len c, len := data.len + 1 }

/-- What the scanner meets: a token of one of its rules, or the end of its input. -/
inductive ScannerEvent where
  | ack
  | retransmission
  | packet (token : Chars) (beyond : Nat → Byte)
  | character (c : Byte)
  | newline
  | endOfFile

section
variable (b : Build) (turns : Nat)

/-- A packet as the scanner hands it over, with its length `yyleng`. -/
def receive (g : GdbProtocolData) (token : Chars) (beyond : Nat → Byte) :
    Except Fault GdbProtocolData :=
  gdbPacketAnalysis b turns g (yytext token beyond) token.length

def scannerAction (data : ParserData) : ScannerEvent → Except Fault ParserData
  | .ack => handleError data
  | .retransmission => do
    let data ← handleError data
    let gdb ← gdbTransmitPacket data.gdb
    .ok { data with gdb := gdb }
  | .packet token beyond => do
    let data ← handleError data
    let gdb ← receive b turns data.gdb token beyond
    .ok { data with gdb := gdb }
  | .character c => addCharacterToError data c
  | .newline => .ok data
  | .endOfFile => handleError data

def scannerRun (data : ParserData) : List ScannerEvent → Except Fault ParserData
  | [] => .ok data
  | event :: events => do
    let data ← scannerAction b turns data event
    scannerRun data events

end

/-- `gdb_scanner` before its first token. -/
def gdbScanner (arm : ArmCoreData) (packet buffer : Nat → Byte) : ParserData where
  gdb := gdbInitData arm packet
  buffer := buffer
  len := 0

end Armator
