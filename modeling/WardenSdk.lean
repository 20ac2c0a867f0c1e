import WardenSdk.Lib.Run
import WardenSdk.Lib.Clock
import WardenSdk.Lib.Checked
import WardenSdk.Lib.Memory
import WardenSdk.Lib.Text
import WardenSdk.Lib.Numeral
import WardenSdk.Lib.Shell
import WardenSdk.Lib.Utf8
import WardenSdk.Lib.Lfsr
import WardenSdk.Lib.Overlay
import WardenSdk.Lib.Pool
import WardenSdk.Lib.Chunks
import WardenSdk.Sim.Hpmcu
import WardenSdk.Sim.HpmcuTick
import WardenSdk.Sim.HpmcuLaw
import WardenSdk.Sim.HpmcuMailbox
import WardenSdk.Sim.Cru
import WardenSdk.Sim.CruLaw
import WardenSdk.Sim.Modbus
import WardenSdk.Sim.ModbusMemory
import WardenSdk.Sim.Crc
import WardenSdk.Bridge.Control
import WardenSdk.Bridge.Memory
import WardenSdk.Bridge.Pump
import WardenSdk.Freshness.Staleness
import WardenSdk.Freshness.Isolation
import WardenSdk.Relays.Calls
import WardenSdk.Relays.Latches
import WardenSdk.Mailbox.Echo
import WardenSdk.Mailbox.EchoLaw
import WardenSdk.ConfigLint.Gate
import WardenSdk.ConfigLint.Ini
import WardenSdk.ConfigLint.IniLayout
import WardenSdk.ConfigLint.DeviceTree
import WardenSdk.ConfigLint.Scanner
import WardenSdk.ConfigLint.Dts
import WardenSdk.ConfigLint.DtsLaw
import WardenSdk.ConfigLint.Flattened
import WardenSdk.Sim.Grammar
import WardenSdk.Sim.Reply
import WardenSdk.Bridge.Reply
import WardenSdk.Sim.Silence
import WardenSdk.Freshness.Confidence
import WardenSdk.Qemu.Layout
import WardenSdk.Qemu.Mkimage
import WardenSdk.Qemu.Image
import WardenSdk.Sim.Board
import WardenSdk.ConfigLint.Cli
import WardenSdk.Bridge.Wire
import WardenSdk.Npu.SchedulerRuns
import WardenSdk.Rtc.Alarm
import WardenSdk.Rtc.Clock
import WardenSdk.Vop.Frames
