import OS64.Auth.Files
import OS64.Auth.Loads
import OS64.Elf.Load
import OS64.Fat.Check
import OS64.Fat.FillChain
import OS64.Fat.LargeFiles
import OS64.Fat.Resolve
import OS64.Fat.Shortage
import OS64.Heap.Run
import OS64.Initramfs.Members
import OS64.Keyboard
import OS64.Mini64.Console
import OS64.Mini64.Format
import OS64.Packages.Install
import OS64.Services.Dependencies
import OS64.Shell.Mkdir
import OS64.Shell.Paths
import OS64.Shell.Sudo
import OS64.Shell.Truncate
import OS64.Tcp.Connect
import OS64.Tcp.InOrder
import OS64.Tcp.Ledger
import OS64.Tcp.Send
import OS64.Timed.Sync
import OS64.Vfs.Homes
import OS64.Web.Redirects
import OS64.Windows.Places
