import MyDriver.Lib.Runs
import MyDriver.Lib.Cyclic
import MyDriver.Xdma.Links
import MyDriver.Rawdata.LockStep
import MyDriver.Xdma.InOrder
import MyDriver.Xdma.Mapping
import MyDriver.Xdma.Exclusive
import MyDriver.Xdma.PktPool
import MyDriver.Xdma.Stats
import MyDriver.Rawdata.SeqNo
import MyDriver.Xdma.Removal
import MyDriver.Xdma.Lifecycle
import MyDriver.Xdma.ErrorCount
import MyDriver.Xdma.Ownership
import MyDriver.Xdma.UserWords
import MyDriver.Xdma.Interrupt
import MyDriver.Xdma.Contract
import MyDriver.Xdma.Sending
import MyDriver.Xdma.Creation
import MyDriver.Xdma.Fields
import MyDriver.Rawdata.Fragments
import MyDriver.Rawdata.Pool
import MyDriver.Fc1553.Device
import MyDriver.Fc1553.ModuleLife
import MyDriver.Xdma.RingCheck
import MyDriver.Xdma.IntrCheck
import MyDriver.Lcd.Line
import MyDriver.Keybutton.Open
import MyDriver.Keybutton.Read
import MyDriver.Xdma.EngineNumber
import MyDriver.Rawdata.Verify
import MyDriver.Lib.Rounds
import MyDriver.Xdma.StatsCopy
import MyDriver.Lib.Spacing
import MyDriver.Xdma.Coalesce
import MyDriver.Lib.Framing
import MyDriver.Xdma.AtWork
import MyDriver.Rawdata.Board
import MyDriver.Rawdata.Loopback
import MyDriver.Rawdata.LoopCheck
import MyDriver.Lcd.Shapes
import MyDriver.Lcd.Picture
import MyDriver.Lcd.ViewPort
import MyDriver.Lib.Footprint
import MyDriver.Xdma.Confined
import MyDriver.Xdma.Engines
import MyDriver.Rawdata.Loading
import MyDriver.Lib.Blocks
import MyDriver.TouchScreen.S3c2410Ts
import MyDriver.Key.Button
