import BootImage.Main
import BootImage.Boot.Arguments
import BootImage.Boot.Hooks
import BootImage.Boot.Services
import BootImage.CommandLine.Directory
import BootImage.Config
import BootImage.Image.Edit
import BootImage.Layout.Edit
import BootImage.Proofs.LinkMap.Conservation
import BootImage.Proofs.Layout.Standard
import BootImage.Proofs.Image.Policy
import BootImage.Proofs.Image.Safety
import BootImage.Proofs.Number
import BootImage.Proofs.Text.ByteOrder
import BootImage.Proofs.LinkMap.Order
import BootImage.Proofs.Wildcard
import BootImage.Proofs.LinkMap.Brackets
import BootImage.Proofs.Image.Symbols
import BootImage.Proofs.LinkMap.Entry
import BootImage.Proofs.LinkMap.Exact
import BootImage.Proofs.LinkMap.Roundings
import BootImage.Proofs.LinkMap.Outcome
import BootImage.Proofs.LinkMap.Exchange
import BootImage.Proofs.LinkMap.Removal
import BootImage.Proofs.Elf.ReadBack
import BootImage.Proofs.Elf.Difference
import BootImage.Proofs.Text.ReadOff
import BootImage.Proofs.Layout.Script
import BootImage.Proofs.Layout.ZeroedData
import BootImage.Proofs.LinkMap.Start
import BootImage.Proofs.LinkMap.Definitions
import BootImage.Proofs.LinkMap.Limit
import BootImage.Proofs.Layout.HookLists
import BootImage.Proofs.LinkMap.FileExtent
import BootImage.Proofs.Boot.Trusted
import BootImage.Proofs.LinkMap.Parting
import BootImage.Proofs.Elf.StoredBytes
import BootImage.Proofs.SectionList.Written
import BootImage.Proofs.Config
import BootImage.Proofs.Boot.Header
import BootImage.Proofs.Word.Rounding
import BootImage.Proofs.Image.Exact
import BootImage.Proofs.CommandLine.Compare
