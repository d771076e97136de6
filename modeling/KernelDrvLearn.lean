import KernelDrvLearn.Fbread
import KernelDrvLearn.RingReset
import KernelDrvLearn.BellAlarm
import KernelDrvLearn.BellLock
import KernelDrvLearn.BlkProduce
import KernelDrvLearn.BlkStream
import KernelDrvLearn.Mydevice
import KernelDrvLearn.MydevRemove
import KernelDrvLearn.Fakesensor
import KernelDrvLearn.MysensorRing
import KernelDrvLearn.Blkram
import KernelDrvLearn.Charioctl
import KernelDrvLearn.MysensorIrq
import KernelDrvLearn.MysensorRead
import KernelDrvLearn.SensorPoll
import KernelDrvLearn.Myalarm
import KernelDrvLearn.BellPoll
import KernelDrvLearn.SensorProbe
import KernelDrvLearn.SensorRead
import KernelDrvLearn.Rdonly
import KernelDrvLearn.Myconfig
import KernelDrvLearn.BellPublish
import KernelDrvLearn.BellRemove
import KernelDrvLearn.BellProbe
import KernelDrvLearn.MyblkRemove
import KernelDrvLearn.PanicbUrb
import KernelDrvLearn.PanicbFiles
import KernelDrvLearn.FbreadFault
import KernelDrvLearn.SensorSigned
import KernelDrvLearn.SensorFault
import KernelDrvLearn.SensorText
import KernelDrvLearn.CharFile
import KernelDrvLearn.CharBytes
import KernelDrvLearn.MysensorCount
import KernelDrvLearn.MysensorRecord
import KernelDrvLearn.BlkBounds
import KernelDrvLearn.Decimals
import KernelDrvLearn.Mydevwrite
import KernelDrvLearn.MydevFile
import KernelDrvLearn.MysensorData
import KernelDrvLearn.Procfs
import KernelDrvLearn.ProcfsFault
import KernelDrvLearn.Charrw
import KernelDrvLearn.MyconfigParse
import KernelDrvLearn.BellStats
import KernelDrvLearn.MyBus
import KernelDrvLearn.Mydpdk
import KernelDrvLearn.Modules
import KernelDrvLearn.NfHook
import KernelDrvLearn.KprobeToggle
import KernelDrvLearn.DpdkFrames
import KernelDrvLearn.ToolSession
import KernelDrvLearn.Waiting
import KernelDrvLearn.TryLock
import KernelDrvLearn.CharInterleave
import KernelDrvLearn.Paging
import KernelDrvLearn.BlkMmap
import KernelDrvLearn.LittleEndian
import KernelDrvLearn.BellReader
