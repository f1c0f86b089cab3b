import LlamaOS.Net.Stack
import LlamaOS.Threading.Scheduler

/-!
# The remote management console

`net/mgmt_server.cpp`: the session table, the line editing of `on_client_data` and the command
interpreter. A session is keyed by its connection, which is the index of a slot. What the
commands report about the rest of the kernel is an argument.
-/

namespace LlamaOS.Net
open Threading (literal)
open Drivers (VirtioNetDevice)

structure ProcessInfo where
  pid : Nat
  active : Bool
  running : Bool
  name : List Byte

structure DeviceInfo where
  name : List Byte
  totalSectors : BitVec 64
  sectorSize : BitVec 32
  readOnly : Bool

/-- What the privileged commands read of the other parts of the kernel. -/
structure Telemetry where
  ticks : BitVec 64
  totalFrames : BitVec 64
  freeFrames : BitVec 64
  activeProcessCount : Nat
  getProcess : Nat → Option ProcessInfo
  deviceCount : Nat
  getDevice : Nat → Option DeviceInfo

def idleTelemetry : Telemetry := ⟨0, 0, 0, 0, fun _ => none, 0, fun _ => none⟩

def decimal (val : Nat) : List Byte := (Nat.toDigits 10 val).map fun c => .ofNat 8 c.toNat

def prompt (authenticated : Bool) : List Byte :=
  if authenticated then literal "llamaos# " else literal "llamaos> "

namespace Telemetry

def statusReport (t : Telemetry) : List (List Byte) :=
  [literal ("\r\n[SYSTEM STATUS]\r\n" ++
            "  OS Name     : LlamaOS/A Production Kernel\r\n" ++
            "  Architecture: x86-64 (Long Mode, Ring 0/Ring 3)\r\n" ++
            "  Uptime      : "),
    decimal (t.ticks.toNat / 100), literal " seconds (", decimal t.ticks.toNat,
    literal " ticks)\r\n  Status      : HEALTHY (All Subsystems Operational)\r\nllamaos# "]

def memReport (t : Telemetry) : List (List Byte) :=
  let used := t.totalFrames - t.freeFrames
  [literal "\r\n[MEMORY TELEMETRY]\r\n  Total RAM   : ",
    decimal ((t.totalFrames * 4096).toNat / (1024 * 1024)),
    literal " MiB (", decimal t.totalFrames.toNat, literal " frames)\r\n  Used RAM    : ",
    decimal ((used * 4096).toNat / 1024), literal " KiB (", decimal used.toNat,
    literal " frames)\r\n  Free RAM    : ", decimal ((t.freeFrames * 4096).toNat / (1024 * 1024)),
    literal " MiB (", decimal t.freeFrames.toNat, literal " frames)\r\nllamaos# "]

def processLine (p : ProcessInfo) : List (List Byte) :=
  [literal "  ", decimal p.pid, literal "    ",
    if p.running then literal "RUNNING  " else literal "READY    ", p.name, literal "\r\n"]

def psReport (t : Telemetry) : List (List Byte) :=
  [literal "\r\n[PROCESS LIST] Active Processes: ", decimal t.activeProcessCount,
    literal "\r\n  PID  STATE    NAME\r\n  -------------------------\r\n"] ++
  ((List.range 16).flatMap fun i => match t.getProcess (i + 1) with
    | some p => if p.active then processLine p else []
    | none => []) ++
  [literal "llamaos# "]

def deviceLine (i : Nat) (d : DeviceInfo) : List (List Byte) :=
  [literal "  Device [", decimal i, literal "]: ", d.name, literal " Capacity: ",
    decimal ((d.totalSectors * d.sectorSize.setWidth 64).toNat / (1024 * 1024)), literal " MiB (",
    decimal d.totalSectors.toNat, literal " sectors, ", if d.readOnly then literal "RO)\r\n"
    else literal "RW)\r\n"]

def storageReport (t : Telemetry) : List (List Byte) :=
  [literal "\r\n[STORAGE DEVICES] Total Devices: ", decimal t.deviceCount, literal "\r\n"] ++
  ((List.range t.deviceCount).flatMap fun i => match t.getDevice i with
    | some d => deviceLine i d
    | none => []) ++
  [literal "llamaos# "]

def report (t : Telemetry) : Command → List (List Byte)
  | .status => t.statusReport
  | .mem => t.memReport
  | .ps => t.psReport
  | .storage => t.storageReport
  | .reboot => [literal "\r\n[POWER] Initiating system reboot now...\r\n"]
  | .poweroff => [literal "\r\n[POWER] Initiating system poweroff now...\r\n"]

end Telemetry

namespace Command

def name : Command → List Byte
  | .status => literal "status"
  | .mem => literal "mem"
  | .ps => literal "ps"
  | .storage => literal "storage"
  | .reboot => literal "reboot"
  | .poweroff => literal "poweroff"

/-- The command a text is compared with successfully. -/
def parse (text : List Byte) : Option Command :=
  [status, mem, ps, storage, reboot, poweroff].find? fun c => text == c.name

def halts : Command → Bool
  | .reboot => true
  | .poweroff => true
  | _ => false

end Command

def helpText (authenticated : Bool) : List (List Byte) :=
  [literal ("\r\nAvailable Management Commands:\r\n" ++
            "  help          - Display this command list\r\n" ++
            "  auth <token>  - Authenticate for privileged administrative access\r\n" ++
            "  ping          - Connectivity test (echoes PONG)\r\n" ++
            "  exit          - Terminate management session\r\n"),
    if authenticated then
      literal ("  status        - System status & uptime telemetry [Privileged]\r\n" ++
               "  mem           - Physical memory statistics (PMM) [Privileged]\r\n" ++
               "  ps            - Active process & thread table    [Privileged]\r\n" ++
               "  storage       - Registered block devices & GPT   [Privileged]\r\n" ++
               "  reboot        - Gracefully restart system        [Privileged]\r\n" ++
               "  poweroff      - Power down system (ACPI/QEMU)    [Privileged]\r\n" ++
               "llamaos# ")
    else
      literal ("  (Administrative status/mem/ps/storage/reboot/poweroff require 'auth <token>')" ++
               "\r\nllamaos> ")]

def banner : List Byte :=
  literal ("\r\n============================================================\r\n" ++
           " LlamaOS/A Secure Remote Management Console v2.0\r\n" ++
           " Kernel: LlamaOS/A x86-64 | Direct-Boot VPS Enterprise Edition\r\n" ++
           "============================================================\r\n" ++
           "Access restricted. Authenticate with 'auth <token>'.\r\n" ++
           "Type 'help' for command list.\r\n" ++
           "llamaos> ")

def maxCmdLen : Nat := 256

def maxAuthFailures : BitVec 32 := 5

namespace Stack

/-- The texts are sent one after the other. -/
def reply (s : Stack) (i : Fin 16) : List (List Byte) → Logged Event Stack
  | [] => pure s
  | text :: texts => do
    let sent ← s.send i text
    sent.2.reply i texts

def findSession (s : Stack) (i : Fin 16) : Option (Fin 16) :=
  (List.finRange 16).find? fun j => (s.sessions j).active && (s.sessions j).conn == some i

def allocateSession (s : Stack) (i : Fin 16) : Option (Fin 16) × Stack :=
  match s.findSession i with
  | some j => (some j, s)
  | none => match (List.finRange 16).find? fun j => !(s.sessions j).active with
    | some j => (some j, s.setSession j ⟨some i, [], false, 0, true⟩)
    | none => (none, s)

def freeSession (s : Stack) (i : Fin 16) : Stack :=
  match s.findSession i with
  | some j => s.setSession j ⟨none, [], false, 0, false⟩
  | none => s

/-- `process_command` for the supplied token of an `auth` line. -/
def authenticate (s : Stack) (j i : Fin 16) (supplied : List Byte) : Logged Event Stack :=
  let session := s.sessions j
  if supplied = s.adminToken then
    (s.setSession j { session with authenticated := true, failedAuthAttempts := 0 }).reply i
      [literal
        "\r\n[AUTH OK] Authentication successful. Administrative commands unlocked.\r\nllamaos# "]
  else
    let s := s.setSession j { session with failedAuthAttempts := session.failedAuthAttempts + 1 }
    if maxAuthFailures ≤ session.failedAuthAttempts + 1 then do
      let s ← s.reply i
        [literal
          "\r\n[AUTH LOCKED] Maximum authentication attempts exceeded. Session terminated.\r\n"]
      let s ← s.close i
      pure (s.freeSession i)
    else s.reply i [literal "\r\n[AUTH FAIL] Invalid management token.\r\nllamaos> "]

def execute (s : Stack) (t : Telemetry) (i : Fin 16) (cmd : List Byte) : Logged Event Stack :=
  match Command.parse cmd with
  | some command => do
    Logged.record (.privileged i command) ()
    let s ← s.reply i (t.report command)
    pure (if command.halts then { s with halted := true } else s)
  | none =>
    s.reply i [literal "\r\nUnknown command: '", cmd,
      literal "'. Type 'help' for command list.\r\nllamaos# "]

/-- The text of a line: up to its first NUL, without leading spaces. -/
def commandText (line : List Byte) : List Byte := (line.takeWhile (· ≠ 0)).dropWhile (· = 0x20)

/-- `process_command` with the buffer of session `j`. -/
def processCommand (s : Stack) (t : Telemetry) (j : Fin 16) : Logged Event Stack :=
  let session := s.sessions j
  match session.conn with
  | none => pure s
  | some i => do
    let cmd := commandText session.cmdBuffer
    Logged.record (.command i cmd session.authenticated) ()
    if cmd = literal "help" then s.reply i (helpText session.authenticated)
    else if (literal "auth ").isPrefixOf cmd then
      s.authenticate j i ((cmd.drop 5).dropWhile (· = 0x20))
    else if cmd = literal "ping" then
      s.reply i [literal "\r\nPONG\r\n", prompt session.authenticated]
    else if cmd = literal "exit" then do
      let s ← s.reply i [literal "\r\nClosing management session. Goodbye.\r\n"]
      let s ← s.close i
      pure (s.freeSession i)
    else if !session.authenticated then
      s.reply i [literal "\r\n[PERMISSION DENIED] Command '", cmd,
        literal "' requires administrative privilege. Type 'auth <token>'.\r\nllamaos> "]
    else s.execute t i cmd

def onClientConnect (s : Stack) (i : Fin 16) : Logged Event Stack :=
  match s.allocateSession i with
  | (some _, s) => s.reply i [banner]
  | (none, s) => do
    let s ← s.reply i [literal "Server busy: maximum management sessions reached.\r\n"]
    s.close i

def onClientClose (s : Stack) (i : Fin 16) : Stack := s.freeSession i

/-- One round of the loop of `on_client_data`, with session `j` for connection `i`. -/
def inputByte (s : Stack) (t : Telemetry) (i j : Fin 16) (c : Byte) : Logged Event Stack := do
  Logged.record (.input i c) ()
  let session := s.sessions j
  if c = 0x0D then pure s
  else if c = 0x0A then
    if session.cmdBuffer.isEmpty then s.reply i [prompt session.authenticated]
    else do
      let s ← s.processCommand t j
      pure (if s.halted then s else s.setSession j { s.sessions j with cmdBuffer := [] })
  else if c = 0x08 || c = 0x7F then
    pure (s.setSession j { session with cmdBuffer := session.cmdBuffer.dropLast })
  else if session.cmdBuffer.length < maxCmdLen - 1 then
    pure (s.setSession j { session with cmdBuffer := session.cmdBuffer ++ [c] })
  else pure s

def inputBytes (t : Telemetry) (i j : Fin 16) : List Byte → Stack → Logged Event Stack
  | [], s => pure s
  | c :: bytes, s => do
    let s ← s.inputByte t i j c
    if s.halted then pure s else inputBytes t i j bytes s

def onClientData (s : Stack) (t : Telemetry) (i : Fin 16) (bytes : List Byte) :
    Logged Event Stack :=
  if bytes.isEmpty then pure s
  else match s.allocateSession i with
    | (some j, s) => inputBytes t i j bytes s
    | (none, s) => pure s

/-- The static objects before anything is initialised. -/
def initial : Stack where
  interfaces := fun _ => ⟨none, 0, 0, 0, 0, 0, fun _ => ⟨0, 0, false⟩, false, 1⟩
  udp := ⟨[], by decide, by decide⟩
  dhcp := ⟨none, .init, 0x4C4C414D, 0, 0, {}⟩
  listeners := fun _ => ⟨0, none, none, none, false⟩
  connections := fun _ => .reset
  sessions := fun _ => ⟨none, [], false, 0, false⟩
  adminToken := literal "llamaos-admin-secure"
  halted := false

/-- `TcpEngine::init` -/
def initTcp (s : Stack) : Stack :=
  { s with listeners := fun _ => ⟨0, none, none, none, false⟩, connections := fun _ => .reset }

/-- `DhcpClient::init` -/
def initDhcp (s : Stack) (k : Fin 4) : Stack :=
  { s with
    dhcp := { s.dhcp with netif := some k, state := .init, lease := {} }
    udp := s.udp.registerHandler 68 (some .dhcpClient) }

/-- `NetInterface::init` of interface `k` with a device. -/
def initInterface (s : Stack) (k : Fin 4) (dev : VirtioNetDevice)
    (ip netmask gateway : Ipv4Address) : Logged Event Stack :=
  if !dev.initialized then pure s
  else
    let n : NetInterface :=
      { s.interfaces k with
        dev := some dev, mac := dev.mac, ip, netmask, gateway, dns := .any
        arp := fun _ => ⟨0, 0, false⟩, up := true }
    let s := s.initTcp.initDhcp k
    if gateway ≠ 0 then do
      let asked ← n.sendArpRequest gateway
      pure (s.setInterface k asked.2)
    else pure (s.setInterface k n)

/-- `TcpEngine::listen` -/
def listen (s : Stack) (port : BitVec 16) (onData onConnect onClose : Option Service) :
    Bool × Stack :=
  match (List.finRange 8).find? fun l => !(s.listeners l).active with
  | some l =>
    (true, { s with
      listeners := Function.update s.listeners l ⟨port, onData, onConnect, onClose, true⟩ })
  | none => (false, s)

def setAdminToken (s : Stack) (token : List Byte) : Stack :=
  { s with adminToken := (token.takeWhile (· ≠ 0)).take 63 }

/-- The bytes of the token file without the line end and the spaces behind them. -/
def trimToken (bytes : List Byte) : List Byte :=
  (bytes.reverse.dropWhile fun c => c = 0x0D || c = 0x0A || c = 0x20).reverse

/-- `RemoteManagementServer::init`, where `/config/mgmt.token` has the given first 63 bytes. -/
def initManagement (s : Stack) (port : BitVec 16) (tokenFile : Option (List Byte)) : Stack :=
  let s := { s with sessions := fun j => { s.sessions j with active := false, conn := none } }
  let s := match tokenFile with
    | some bytes => if (trimToken bytes).isEmpty then s else s.setAdminToken (trimToken bytes)
    | none => s
  (s.listen port (some .management) (some .management) (some .management)).2

end Stack

/-- A connection of the management console in a given state. -/
def sampleConnection (state : TcpState) : TcpConnection :=
  ⟨some Stack.primary, .ofOctets 10 0 0 2, 40000, 2222, state, 100001, 7001, true, some .management,
    some .management, some .management⟩

end LlamaOS.Net
