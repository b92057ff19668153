import Bathos.Allocator.Calls
import Bathos.Allocator.Frees
import Bathos.Allocator.Partition
import Bathos.Allocator.Search
import Bathos.Atmega.Pwm
import Bathos.Atmega.PwmDirection
import Bathos.Atmega.Spi
import Bathos.Buffer.Lists
import Bathos.Buffer.OldMemory
import Bathos.Buffer.Queue
import Bathos.Drivers.Bitbang
import Bathos.Drivers.Dev
import Bathos.Drivers.Enc28Send
import Bathos.Drivers.Enc28j60
import Bathos.Drivers.Push
import Bathos.Drivers.Reopen
import Bathos.Drivers.W1Eeprom
import Bathos.Drivers.W1Scan
import Bathos.Drivers.W1Temp
import Bathos.Esp8266.Spim
import Bathos.Esp8266.SpimData
import Bathos.Event.Delivery
import Bathos.Event.Interrupts
import Bathos.Event.Statemachine
import Bathos.I2c.Endings
import Bathos.I2c.Registers
import Bathos.I2c.Reset
import Bathos.I2c.Rings
import Bathos.I2c.Transaction
import Bathos.I2c.Windows
import Bathos.Lib.Bisection
import Bathos.Libc.Mem
import Bathos.Lininoio.Association
import Bathos.Lininoio.Input
import Bathos.Mcuio.Channels
import Bathos.Mcuio.Framing
import Bathos.Mcuio.GpioSetClear
import Bathos.Mcuio.GpioStatus
import Bathos.Mcuio.Irq
import Bathos.Mcuio.Reads
import Bathos.Mcuio.Requests
import Bathos.Mcuio.Resync
import Bathos.Pipe.Lifecycle
import Bathos.Printf.Xint
import Bathos.Radio.Master
import Bathos.Radio.Reassembly
import Bathos.Radio.Slave
import Bathos.Shell.Cmdline
import Bathos.Shell.Lifetime
import Bathos.Shell.Line
import Bathos.Timer.Enqueue
import Bathos.Timer.Scheduler
import Bathos.Timer.Udelay
import Bathos.Tools.Dump
import Bathos.Tools.Program
import Bathos.Tools.Uuencode
import Bathos.Unix.Eth
import Bathos.Unix.Idle
import Bathos.Unix.Pipes
import Bathos.Usb.EpRead
import Bathos.Usb.Packets
import Bathos.Usb.RefCount
import Bathos.Usb.Setup
import Bathos.Usb.SetupTables
import Bathos.Yun.Mux
