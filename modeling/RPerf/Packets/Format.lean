import RPerf.Lib.PrefixCodes

/-!
# The Intel PT packet grammar

Translation of `util/intel-pt-decoder/intel-pt-pkt-decoder.c`.
-/

namespace RPerf.Packets

open Lib

/-- `enum intel_pt_pkt_type`. -/
inductive PktType
  | bad | pad | tnt | tipPgd | tipPge | tsc | tma | modeExec | modeTsx | mtc | tip | fup
  | cyc | vmcs | psb | psbend | cbr | tracestop | pip | ovf | mnt | ptwrite | ptwriteIp
  | exstop | exstopIp | mwait | pwre | pwrx
  deriving DecidableEq, Repr, Inhabited

/-- `struct intel_pt_pkt`; the defaults are what `memset` leaves. -/
structure Pkt where
  type : PktType := .bad
  count : ℕ := 0
  payload : UInt64 := 0
  deriving DecidableEq, Repr, Inhabited

abbrev Bytes := ℕ → UInt8

def pktMaxSz : ℕ := 16

def psbLen : ℕ := 16

/-- `INTEL_PT_PSB_STR`. -/
def psbStr : List UInt8 :=
  [0x02, 0x82, 0x02, 0x82, 0x02, 0x82, 0x02, 0x82,
   0x02, 0x82, 0x02, 0x82, 0x02, 0x82, 0x02, 0x82]

def bit63 : UInt64 := 0x8000000000000000

def leBytes (buf : Bytes) (k : ℕ) : ℕ → UInt64
  | 0 => 0
  | n + 1 => (buf k).toUInt64 ||| (leBytes buf (k + 1) n <<< 8)

def tntCount (stop : UInt64) : ℕ → UInt64 → ℕ × UInt64
  | 0, payload => (0, payload)
  | n + 1, payload =>
    if payload &&& stop ≠ 0 then (n + 1, payload) else tntCount stop n (payload <<< 1)

variable (buf : Bytes) (len : ℕ)

section

variable (packet : Pkt)

def getLongTnt : Scan × Pkt :=
  if len < 8 then (.more, packet)
  else
    let r := tntCount bit63 47 (leBytes buf 0 8)
    (.accept 8, { type := .tnt, count := r.1, payload := r.2 <<< 1 })

def getPip : Scan × Pkt :=
  if len < 8 then (.more, packet)
  else
    let payload := leBytes buf 2 6
    let nr := if payload &&& 1 ≠ 0 then bit63 else 0
    (.accept 8, { packet with type := .pip, payload := payload >>> 1 ||| nr })

def getTracestop : Scan × Pkt := (.accept 2, { packet with type := .tracestop })

def getCbr : Scan × Pkt :=
  if len < 4 then (.more, packet)
  else (.accept 4, { packet with type := .cbr, payload := leBytes buf 2 2 })

def getVmcs : Scan × Pkt :=
  if len < 7 then (.more, packet)
  else (.accept 7, { type := .vmcs, count := 5, payload := leBytes buf 2 5 })

def getOvf : Scan × Pkt := (.accept 2, { packet with type := .ovf })

def getPsb : Scan × Pkt :=
  if len < 16 then (.more, packet)
  else if (List.range 7).all fun j => buf (2 * j + 2) = 2 ∧ buf (2 * j + 3) = 0x82 then
    (.accept 16, { packet with type := .psb })
  else (.reject, packet)

def getPsbend : Scan × Pkt := (.accept 2, { packet with type := .psbend })

def getTma : Scan × Pkt :=
  if len < 7 then (.more, packet)
  else
    (.accept 7,
      { type := .tma
        count := (buf 5).toNat ||| ((buf 6).toNat &&& 1) <<< 8
        payload := leBytes buf 2 2 })

def getPad : Scan × Pkt := (.accept 1, { packet with type := .pad })

def getMnt : Scan × Pkt :=
  if len < 11 then (.more, packet)
  else (.accept 11, { packet with type := .mnt, payload := leBytes buf 3 8 })

def get3byte : Scan × Pkt :=
  if len < 3 then (.more, packet)
  else if buf 2 = 0x88 then getMnt buf len packet
  else (.reject, packet)

def ptwriteOf (byte : UInt8) (buf : Bytes) (len : ℕ) (packet : Pkt) : Scan × Pkt :=
  let count := byte.toNat >>> 5 &&& 3
  let type := if byte &&& 0x80 ≠ 0 then PktType.ptwriteIp else .ptwrite
  let packet := { packet with count := count, type := type }
  if count = 0 then
    if len < 6 then (.more, packet)
    else (.accept 6, { packet with payload := leBytes buf 2 4 })
  else if count = 1 then
    if len < 10 then (.more, packet)
    else (.accept 10, { packet with payload := leBytes buf 2 8 })
  else (.reject, packet)

def getPtwrite : Scan × Pkt :=
  ptwriteOf (buf 1) buf len packet

def getExstop : Scan × Pkt := (.accept 2, { packet with type := .exstop })

def getExstopIp : Scan × Pkt := (.accept 2, { packet with type := .exstopIp })

def getMwait : Scan × Pkt :=
  if len < 10 then (.more, packet)
  else (.accept 10, { packet with type := .mwait, payload := leBytes buf 2 8 })

def getPwre : Scan × Pkt :=
  if len < 4 then (.more, packet)
  else (.accept 4, { packet with type := .pwre, payload := leBytes buf 2 2 })

def getPwrx : Scan × Pkt :=
  if len < 7 then (.more, packet)
  else (.accept 7, { packet with type := .pwrx, payload := leBytes buf 2 5 })

def getExtSwitch : Scan × Pkt :=
  if buf 1 = 0xa3 then getLongTnt buf len packet
  else if buf 1 = 0x43 then getPip buf len packet
  else if buf 1 = 0x83 then getTracestop packet
  else if buf 1 = 0x03 then getCbr buf len packet
  else if buf 1 = 0xc8 then getVmcs buf len packet
  else if buf 1 = 0xf3 then getOvf packet
  else if buf 1 = 0x82 then getPsb buf len packet
  else if buf 1 = 0x23 then getPsbend packet
  else if buf 1 = 0x73 then getTma buf len packet
  else if buf 1 = 0xc3 then get3byte buf len packet
  else if buf 1 = 0x62 then getExstop packet
  else if buf 1 = 0xe2 then getExstopIp packet
  else if buf 1 = 0xc2 then getMwait buf len packet
  else if buf 1 = 0x22 then getPwre buf len packet
  else if buf 1 = 0xa2 then getPwrx buf len packet
  else (.reject, packet)

def getExt : Scan × Pkt :=
  if len < 2 then (.more, packet)
  else if buf 1 &&& 0x1f = 0x12 then getPtwrite buf len packet
  else getExtSwitch buf len packet

def getShortTnt (byte : UInt8) : Scan × Pkt :=
  let r := tntCount 0x80 6 byte.toUInt64
  (.accept 1, { type := .tnt, count := r.1, payload := r.2 <<< 57 })

/-- The extension loop of `intel_pt_get_cyc`. -/
def getCycLoop (buf : Bytes) (len : ℕ) : ℕ → ℕ → UInt32 → UInt64 → Scan × UInt64
  | 0, _, _, payload => (.reject, payload)
  | fuel + 1, offs, byte, payload =>
    if byte &&& 1 = 0 then (.accept offs, payload)
    else if 9 < offs then (.reject, payload)
    else if len - 1 < offs then (.more, payload)
    else
      let byte := (buf offs).toUInt32
      let shift := UInt32.ofNat (5 + 7 * (offs - 1))
      getCycLoop buf len fuel (offs + 1) byte (payload ||| ((byte >>> 1) <<< shift).toUInt64)

def getCyc (byte : UInt8) (buf : Bytes) (len : ℕ) (packet : Pkt) : Scan × Pkt :=
  match getCycLoop buf len 10 1 (byte.toUInt32 >>> 2) (byte >>> 3).toUInt64 with
  | (.accept n, payload) => (.accept n, { packet with type := .cyc, payload := payload })
  | (ret, _) => (ret, packet)

def ipLen : ℕ → Option ℕ
  | 0 => some 0
  | 1 => some 2
  | 2 => some 4
  | 3 => some 6
  | 4 => some 6
  | 6 => some 8
  | _ => none

def getIp (type : PktType) (byte : UInt8) (buf : Bytes) (len : ℕ) (packet : Pkt) : Scan × Pkt :=
  let packet := { packet with count := byte.toNat >>> 5 }
  match ipLen packet.count with
  | none => (.reject, packet)
  | some n =>
    if len < n + 1 then (.more, packet)
    else (.accept (n + 1), { packet with type := type, payload := leBytes buf 1 n })

def getMode : Scan × Pkt :=
  if len < 2 then (.more, packet)
  else if buf 1 >>> 5 = 0 then
    let packet := { packet with type := .modeExec }
    if buf 1 &&& 3 = 0 then (.accept 2, { packet with payload := 16 })
    else if buf 1 &&& 3 = 1 then (.accept 2, { packet with payload := 64 })
    else if buf 1 &&& 3 = 2 then (.accept 2, { packet with payload := 32 })
    else (.reject, packet)
  else if buf 1 >>> 5 = 1 then
    let packet := { packet with type := .modeTsx }
    if buf 1 &&& 3 = 3 then (.reject, packet)
    else (.accept 2, { packet with payload := (buf 1 &&& 3).toUInt64 })
  else (.reject, packet)

def getTsc : Scan × Pkt :=
  if len < 8 then (.more, packet)
  else (.accept 8, { packet with type := .tsc, payload := leBytes buf 1 7 })

def getMtc : Scan × Pkt :=
  if len < 2 then (.more, packet)
  else (.accept 2, { packet with type := .mtc, payload := (buf 1).toUInt64 })

end

def getOddSwitch (byte : UInt8) (buf : Bytes) (len : ℕ) (packet : Pkt) : Scan × Pkt :=
  if byte &&& 0x1f = 0x0d then getIp .tip byte buf len packet
  else if byte &&& 0x1f = 0x11 then getIp .tipPge byte buf len packet
  else if byte &&& 0x1f = 0x01 then getIp .tipPgd byte buf len packet
  else if byte &&& 0x1f = 0x1d then getIp .fup byte buf len packet
  else if byte = 0x99 then getMode buf len packet
  else if byte = 0x19 then getTsc buf len packet
  else if byte = 0x59 then getMtc buf len packet
  else (.reject, packet)

/-- `intel_pt_do_get_packet`: one packet from the front of the bytes. -/
def doGetPacket : Scan × Pkt :=
  let packet : Pkt := {}
  if len = 0 then (.more, packet)
  else
    let byte := buf 0
    if byte &&& 1 = 0 then
      if byte = 0 then getPad packet
      else if byte = 2 then getExt buf len packet
      else getShortTnt byte
    else if byte &&& 2 ≠ 0 then getCyc byte buf len packet
    else getOddSwitch byte buf len packet

/-- The trailing-PAD loop of `intel_pt_get_packet`. -/
def absorbPads (buf : Bytes) (len : ℕ) : ℕ → ℕ → ℕ
  | 0, ret => ret
  | fuel + 1, ret =>
    if ret < 8 ∧ ret < len ∧ buf ret = 0 then absorbPads buf len fuel (ret + 1) else ret

/-- `intel_pt_get_packet`: a packet and the PAD bytes that fit behind it. -/
def getPacket : Scan × Pkt :=
  match doGetPacket buf len with
  | (.accept n, packet) => (.accept (absorbPads buf len 8 n), packet)
  | r => r

/-- A byte list seen through a pointer to its front. -/
def bytesOf (l : List UInt8) : Bytes := fun i => l.getD i 0

end RPerf.Packets
